import ChangeImpact.Text.Blank
import ChangeImpact.Text.Bytes
import ChangeImpact.Text.Word

/-!
# Text patterns

A small language of text patterns and its meaning: the list of all ways in which a pattern matches
at a place, in order of preference. The first way is the match. `results` is defined by recursion on
the pattern, one equation a constructor, so that a sequence is a `flatMap` and a choice is an
append.
-/

namespace ChangeImpact

/-- A place in a text: the character before it, the text after it, and its byte offset. -/
structure Cursor where
  before : Option Char
  rest : List Char
  offset : Nat
  deriving DecidableEq, Repr

namespace Cursor

/-- The places reached over characters that satisfy `p`, nearest first, with no step taken first. -/
def run (p : Char → Bool) (before : Option Char) (offset : Nat) : List Char → List Cursor
  | [] => [⟨before, [], offset⟩]
  | c :: rest =>
    ⟨before, c :: rest, offset⟩ ::
      if p c then run p (some c) (offset + c.utf8Size) rest else []

def textTo (start stop : Cursor) : List Char :=
  Text.takeBytes start.rest (stop.offset - start.offset)

end Cursor

inductive Anchor where
  | textStart
  | textEnd
  | lineStart
  | lineEnd
  | wordBoundary
  deriving DecidableEq, Repr

/-- Lines are delimited by line feeds alone. -/
def Anchor.holds (place : Cursor) : Anchor → Bool
  | textStart => place.before.isNone
  | textEnd => place.rest.isEmpty
  | lineStart => place.before.all (· == '\n')
  | lineEnd => place.rest.head?.all (· == '\n')
  | wordBoundary => place.before.any Text.isWord != place.rest.head?.any Text.isWord

/-- Text patterns. Repetition and choice prefer what is written first, repetition the most. -/
inductive Pattern where
  /-- The empty text. -/
  | empty
  /-- One character of a class. -/
  | one (p : Char → Bool)
  /-- Any number of characters of a class, the most first. -/
  | many (p : Char → Bool)
  /-- Any number of characters of a class, the fewest first. -/
  | few (p : Char → Bool)
  | anchor (condition : Anchor)
  | seq (first second : Pattern)
  | alt (first second : Pattern)
  /-- Any number of repetitions of a pattern, the most first. -/
  | repeated (body : Pattern)
  /-- A numbered part of the match. -/
  | group (index : Nat) (body : Pattern)

structure Capture where
  index : Nat
  start : Cursor
  stop : Cursor
  deriving DecidableEq, Repr

/-- A way of matching so far: the place reached, and the parts closed, latest first. -/
structure Trace where
  place : Cursor
  captures : List Capture
  deriving DecidableEq, Repr

namespace Pattern

/-- The ways of repeating `step`, the most repetitions first. A repetition has to move on; `fuel`
bounds their number, and the length of the text is always enough. -/
def repeatResults (step : Trace → List Trace) : Nat → Trace → List Trace
  | 0, trace => [trace]
  | fuel + 1, trace =>
    let further (next : Trace) : List Trace :=
      if trace.place.offset < next.place.offset then repeatResults step fuel next else []
    (step trace).flatMap further ++ [trace]

/-- All ways in which a pattern matches from where a trace stands, the preferred one first. -/
def results : Pattern → Trace → List Trace
  | empty, trace => [trace]
  | one p, trace =>
    match trace.place.rest with
    | [] => []
    | c :: rest =>
      if p c then [{ trace with place := ⟨some c, rest, trace.place.offset + c.utf8Size⟩ }] else []
  | many p, trace =>
    (Cursor.run p trace.place.before trace.place.offset trace.place.rest).reverse.map
      fun place => { trace with place }
  | few p, trace =>
    (Cursor.run p trace.place.before trace.place.offset trace.place.rest).map
      fun place => { trace with place }
  | anchor condition, trace => if condition.holds trace.place then [trace] else []
  | seq first second, trace => (first.results trace).flatMap second.results
  | alt first second, trace => first.results trace ++ second.results trace
  | repeated body, trace => repeatResults body.results trace.place.rest.length trace
  | group index body, trace =>
    (body.results trace).map fun next =>
      { next with captures := ⟨index, trace.place, next.place⟩ :: next.captures }

def char (c : Char) : Pattern :=
  one (· == c)

def word : List Char → Pattern
  | [] => empty
  | [c] => char c
  | c :: rest => seq (char c) (word rest)

def lit (text : String) : Pattern :=
  word text.toList

def all : List Pattern → Pattern
  | [] => empty
  | [p] => p
  | p :: rest => seq p (all rest)

/-- The first of the patterns that leads to a match. -/
def any : List Pattern → Pattern
  | [] => one fun _ => false
  | [p] => p
  | p :: rest => alt p (any rest)

def anyLit (texts : List String) : Pattern :=
  any (texts.map lit)

def opt (p : Pattern) : Pattern :=
  alt p empty

def many1 (p : Char → Bool) : Pattern :=
  seq (one p) (many p)

def few1 (p : Char → Bool) : Pattern :=
  seq (one p) (few p)

def blanks : Pattern := many Text.isBlank

def blanks1 : Pattern := many1 Text.isBlank

/-- An identifier as declared: a letter of ASCII, `_` or `$`, then word characters and `$`. -/
def identifier : Pattern :=
  seq (one Text.isNameStart) (many Text.isNameChar)

def indentedLine : Pattern :=
  seq (anchor .lineStart) (many Text.isIndent)

def wordBoundary : Pattern := anchor .wordBoundary

end Pattern

end ChangeImpact
