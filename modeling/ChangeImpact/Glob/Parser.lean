import ChangeImpact.Glob.Basic

/-!
# Reading globs

A glob is read from left to right. The sequence being read is kept in reverse, with the branches of
the choices that are open around it.
-/

namespace ChangeImpact

namespace Glob

structure Options where
  /-- Wildcards stop at slashes. -/
  stopsAtSlash : Bool
  /-- A `[` that is not closed stands for itself. -/
  literalOpenClass : Bool

/-- The ranges of a class read so far, latest first, and whether a `-` waits for its end. -/
structure ClassState where
  ranges : List (Char × Char) := []
  inRange : Bool := false

namespace ClassState

/-- Adds a character to a class: as the end of the latest range, or on its own. A `-` that is not
the first character opens a range. -/
def add (state : ClassState) (c : Char) : Except GlobError ClassState :=
  match state.inRange, state.ranges with
  | true, (first, _) :: earlier =>
    if c < first then .error (.invalidRange first c)
    else .ok ⟨(first, c) :: earlier, false⟩
  | _, [] => .ok ⟨[(c, c)], false⟩
  | false, ranges => if c == '-' then .ok ⟨ranges, true⟩ else .ok ⟨(c, c) :: ranges, false⟩

/-- The ranges of a class in order; a `-` at the end stands for itself. -/
def close (state : ClassState) : List (Char × Char) :=
  (if state.inRange then ('-', '-') :: state.ranges else state.ranges).reverse

end ClassState

/-- Reads a class up to its closing bracket; a bracket that comes first belongs to the class. The
number of characters read is part of the answer. -/
def classBody (state : ClassState) (length : Nat) :
    List Char → Except GlobError (List (Char × Char) × Nat)
  | [] => .error .unclosedClass
  | c :: rest =>
    if c == ']' && !state.ranges.isEmpty then .ok (state.close, length + 1)
    else
      match state.add c with
      | .ok state => classBody state (length + 1) rest
      | .error error => .error error

def class? (text : List Char) : Except GlobError (GlobPart × Nat) :=
  match text with
  | c :: rest =>
    if c == '!' || c == '^' then
      (classBody {} 1 rest).map fun (ranges, length) => (.oneOf true ranges, length)
    else (classBody {} 0 text).map fun (ranges, length) => (.oneOf false ranges, length)
  | [] => .error .unclosedClass

/-- A choice being read: its finished branches and the sequence before it, both in reverse. -/
structure OpenChoice where
  branches : List (List GlobPart)
  outside : List GlobPart

def isVoid : GlobPart → Bool
  | .choice [] => true
  | _ => false

/-- The part of a choice with a last branch. Branches without anything to match are left out. -/
def closeChoice (choice : OpenChoice) (last : List GlobPart) : GlobPart :=
  .choice ((last.reverse :: choice.branches).reverse.filter fun branch => !branch.all isVoid)

/-- Reads `**` after the parts of a sequence in reverse, between two characters. The answer tells
whether the slash after it belongs to it. Only as a whole component does it stand for directories.
-/
def doubleStar (inChoice : Bool) (before : Option Char) (parts : List GlobPart)
    (next : Option Char) : List GlobPart × Bool :=
  match parts with
  | [] =>
    if next.all (· == '/') then ([.leadingDirs], true) else ([.anyText, .anyText], false)
  | last :: earlier =>
    let begins := before == some '/' || (inChoice && (before == some ',' || before == some '\x7b'))
    let ends := next.isNone || (inChoice && (next == some ',' || next == some '\x7d'))
    if begins && (ends || next == some '/') then
      match last with
      | .leadingDirs => (.leadingDirs :: earlier, !ends)
      | .trailingDirs => (.trailingDirs :: earlier, !ends)
      | _ => ((if ends then .trailingDirs else .innerDirs) :: earlier, !ends)
    else (.anyText :: .anyText :: parts, false)

/-- A glob being read: the character before, the sequence in reverse, the choices that are open,
innermost first, and whether a `[` is known to be unclosed. -/
structure Reading where
  before : Option Char := none
  parts : List GlobPart := []
  choices : List OpenChoice := []
  unclosed : Bool := false

namespace Reading

def add (reading : Reading) (before : Char) (part : GlobPart) : Reading :=
  { reading with before := some before, parts := part :: reading.parts }

def comma (reading : Reading) : Reading :=
  match reading.choices with
  | [] => reading.add ',' (.literal ',')
  | choice :: outer =>
    { reading with
      before := some ','
      parts := []
      choices := { choice with branches := reading.parts.reverse :: choice.branches } :: outer }

def openChoice (reading : Reading) : Reading :=
  { reading with
    before := some '\x7b', parts := [], choices := ⟨[], reading.parts⟩ :: reading.choices }

def closeChoice (reading : Reading) : Except GlobError Reading :=
  match reading.choices with
  | [] => .error .unopenedChoice
  | choice :: outer =>
    .ok { reading with
      before := some '\x7d'
      parts := Glob.closeChoice choice reading.parts :: choice.outside
      choices := outer }

def finish (reading : Reading) : Except GlobError (List GlobPart) :=
  if reading.choices.isEmpty then .ok reading.parts.reverse else .error .unclosedChoice

end Reading

def partsFrom (options : Options) (reading : Reading) : List Char → Except GlobError (List GlobPart)
  | [] => reading.finish
  | '?' :: rest => partsFrom options (reading.add '?' .anyByte) rest
  | '*' :: '*' :: rest =>
    let (parts, takesSlash) :=
      doubleStar (!reading.choices.isEmpty) reading.before reading.parts rest.head?
    if takesSlash then partsFrom options { reading with before := some '/', parts } (rest.drop 1)
    else partsFrom options { reading with before := some '*', parts } rest
  | '*' :: rest => partsFrom options (reading.add '*' .anyText) rest
  | '\x7b' :: rest => partsFrom options reading.openChoice rest
  | '\x7d' :: rest =>
    match reading.closeChoice with
    | .ok reading => partsFrom options reading rest
    | .error error => .error error
  | ',' :: rest => partsFrom options reading.comma rest
  | ['\\'] => .error .danglingEscape
  | '\\' :: c :: rest => partsFrom options (reading.add c (.literal c)) rest
  | '[' :: rest =>
    if reading.unclosed then partsFrom options (reading.add '[' (.literal '[')) rest
    else
      match class? rest with
      | .ok (part, length) => partsFrom options (reading.add ']' part) (rest.drop length)
      | .error error =>
        if error == .unclosedClass && options.literalOpenClass then
          partsFrom options { reading.add '[' (.literal '[') with unclosed := true } rest
        else .error error
  | c :: rest => partsFrom options (reading.add c (.literal c)) rest
termination_by text => text.length
decreasing_by all_goals simp_wf; try omega

def read (options : Options) (text : String) : Except GlobError Glob :=
  (partsFrom options {} text.toList).map fun parts => ⟨parts, options.stopsAtSlash⟩

end Glob

end ChangeImpact
