import ChangeImpact.Pattern.Basic

/-!
# Searching a text for a pattern

The match at a place is the preferred one, the first match of a text is the one that begins
earliest, and the matches of a text are found from left to right without overlap.
-/

namespace ChangeImpact

structure Match where
  start : Cursor
  stop : Cursor
  captures : List Capture
  deriving DecidableEq, Repr

namespace Match

def text (found : Match) : List Char :=
  found.start.textTo found.stop

/-- A numbered part, if the match went through it. -/
def capture? (found : Match) (index : Nat) : Option Capture :=
  found.captures.find? (·.index == index)

def has (found : Match) (index : Nat) : Bool :=
  (found.capture? index).isSome

def part? (found : Match) (index : Nat) : Option (List Char) :=
  (found.capture? index).map fun capture => capture.start.textTo capture.stop

/-- The text of a numbered part, empty if the match did not go through it. -/
def part (found : Match) (index : Nat) : List Char :=
  (found.part? index).getD []

/-- The byte offset of the first character of the match that is not blank. -/
def inkOffset (found : Match) : Nat :=
  found.start.offset + Text.byteLength (Text.leadingBlanks found.text)

end Match

namespace Pattern

def matchAt? (p : Pattern) (place : Cursor) : Option Match :=
  (p.results ⟨place, []⟩).head?.map fun trace => ⟨place, trace.place, trace.captures⟩

/-- The matches from a place on, none that begins before the byte offset `least`. -/
def matchesFrom (p : Pattern) (least : Nat) (before : Option Char) (offset : Nat) :
    List Char → List Match
  | [] =>
    if offset < least then [] else (p.matchAt? ⟨before, [], offset⟩).toList
  | c :: rest =>
    if offset < least then matchesFrom p least (some c) (offset + c.utf8Size) rest
    else
      match p.matchAt? ⟨before, c :: rest, offset⟩ with
      | none => matchesFrom p least (some c) (offset + c.utf8Size) rest
      | some found =>
        found ::
          matchesFrom p (max found.stop.offset (offset + 1)) (some c) (offset + c.utf8Size) rest

/-- All matches of a text from left to right, without overlap. -/
def allMatches (p : Pattern) (text : List Char) : List Match :=
  p.matchesFrom 0 none 0 text

/-- The match that begins earliest, from a place on. -/
def firstMatchFrom? (p : Pattern) (before : Option Char) (offset : Nat) : List Char → Option Match
  | [] => p.matchAt? ⟨before, [], offset⟩
  | c :: rest =>
    match p.matchAt? ⟨before, c :: rest, offset⟩ with
    | some found => some found
    | none => firstMatchFrom? p (some c) (offset + c.utf8Size) rest

def firstMatch? (p : Pattern) (text : List Char) : Option Match :=
  p.firstMatchFrom? none 0 text

def matchFront? (p : Pattern) (text : List Char) : Option Match :=
  p.matchAt? ⟨none, text, 0⟩

def occursIn (p : Pattern) (text : List Char) : Bool :=
  (p.firstMatch? text).isSome

end Pattern

end ChangeImpact
