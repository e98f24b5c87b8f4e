import ChangeImpact.Text.Cut

/-!
# Glob patterns

A glob is a pattern of a whole path: wildcards, classes of characters, choices, and `**` for any
number of directories. It is matched byte by byte, so that a wildcard for one character stands for
one byte. `Glob.after` maps the texts left to match to the texts that may be left after a part.
-/

namespace ChangeImpact

inductive GlobPart where
  | literal (c : Char)
  /-- `?`, one byte. -/
  | anyByte
  /-- `*`, any bytes. -/
  | anyText
  /-- `**/` in front: nothing, or directories with a slash after them. -/
  | leadingDirs
  /-- `/**/` between: a slash, or directories between two slashes. -/
  | innerDirs
  /-- `/**` at the end: a slash and anything. -/
  | trailingDirs
  /-- `[...]`, one byte of a class. -/
  | oneOf (negated : Bool) (ranges : List (Char × Char))
  /-- One of several sequences; without any, nothing. -/
  | choice (branches : List (List GlobPart))

/-- A glob, and whether its wildcards stop at slashes. -/
structure Glob where
  parts : List GlobPart
  stopsAtSlash : Bool

inductive GlobError where
  | unclosedClass
  | invalidRange (first last : Char)
  | unopenedChoice
  | unclosedChoice
  | danglingEscape
  deriving DecidableEq, Repr

def GlobError.message : GlobError → String
  | unclosedClass => "unclosed character class; missing ']'"
  | invalidRange first last =>
    "invalid range; '" ++ String.singleton first ++ "' > '" ++ String.singleton last ++ "'"
  | unopenedChoice =>
    "unopened alternate group; missing '\x7b' (maybe escape '\x7d' with '[\x7d]'?)"
  | unclosedChoice =>
    "unclosed alternate group; missing '\x7d' (maybe escape '\x7b' with '[\x7b]'?)"
  | danglingEscape => "dangling '\\'"

namespace Glob

def slash : UInt8 := 47

def textBytes (text : String) : List UInt8 :=
  text.toList.flatMap String.utf8EncodeChar

/-- Keeps the first of the suffixes that have the same length. -/
def distinct (rests : List (List UInt8)) : List (List UInt8) :=
  rests.foldr
    (fun rest kept => rest :: kept.filter fun other => other.length != rest.length) []

/-- All suffixes of a text that are reached over bytes that satisfy `p`, the whole text first. -/
def suffixesOver (p : UInt8 → Bool) : List UInt8 → List (List UInt8)
  | [] => [[]]
  | byte :: rest => (byte :: rest) :: if p byte then suffixesOver p rest else []

def dropBytes? : List UInt8 → List UInt8 → Option (List UInt8)
  | [], text => some text
  | _ :: _, [] => none
  | byte :: bytes, other :: rest => if byte == other then dropBytes? bytes rest else none

def afterSlashes : List UInt8 → List (List UInt8)
  | [] => []
  | byte :: rest => if byte == slash then rest :: afterSlashes rest else afterSlashes rest

/-- The ranges of bytes that a range of characters stands for. The last byte of its first character
and the first byte of its last one span a range, and all other bytes of the two stand alone. -/
def byteRanges (first last : Char) : List (UInt8 × UInt8) :=
  let low := String.utf8EncodeChar first
  let high := String.utf8EncodeChar last
  if first == last then low.map fun byte => (byte, byte)
  else
    (low.dropLast.map fun byte => (byte, byte)) ++
      [(low.getLast?.getD 0, high.head?.getD 0)] ++ (high.tail.map fun byte => (byte, byte))

def inClass (negated : Bool) (ranges : List (Char × Char)) (byte : UInt8) : Bool :=
  negated != ranges.any fun (first, last) =>
    (byteRanges first last).any fun (low, high) => low ≤ byte && byte ≤ high

def afterByte (p : UInt8 → Bool) : List UInt8 → List (List UInt8)
  | [] => []
  | byte :: rest => if p byte then [rest] else []

mutual

/-- The texts that may be left of `text` after a part that matches its beginning. -/
def after (wild : UInt8 → Bool) (text : List UInt8) : GlobPart → List (List UInt8)
  | .literal c => (dropBytes? (String.utf8EncodeChar c) text).toList
  | .anyByte => afterByte wild text
  | .anyText => suffixesOver wild text
  | .leadingDirs => text :: afterSlashes text
  | .innerDirs => (afterByte (· == slash) text).flatMap fun rest => rest :: afterSlashes rest
  | .trailingDirs => (afterByte (· == slash) text).flatMap (suffixesOver fun _ => true)
  | .oneOf negated ranges => afterByte (inClass negated ranges) text
  | .choice [] => [text]
  | .choice (branch :: branches) => afterAll wild [text] branch ++ afterAny wild text branches

def afterAll (wild : UInt8 → Bool) (texts : List (List UInt8)) :
    List GlobPart → List (List UInt8)
  | [] => texts
  | part :: parts => afterAll wild (distinct (texts.flatMap fun text => after wild text part)) parts

def afterAny (wild : UInt8 → Bool) (text : List UInt8) :
    List (List GlobPart) → List (List UInt8)
  | [] => []
  | branch :: branches => afterAll wild [text] branch ++ afterAny wild text branches

end

/-- Whether a glob matches a whole path. A glob that is `**` alone matches every path. -/
def matchesPath (glob : Glob) (path : String) : Bool :=
  match glob.parts with
  | [.leadingDirs] => true
  | parts =>
    let wild (byte : UInt8) : Bool := !glob.stopsAtSlash || byte != slash
    (afterAll wild [textBytes path] parts).any List.isEmpty

end Glob

end ChangeImpact
