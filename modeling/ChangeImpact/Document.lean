import ChangeImpact.Text.Cut
import ChangeImpact.Text.Lines

/-!
# Documents

A file as a list of lines, with the line ending it is written with and whether its last line is
ended. A text in which one line ends in a carriage return and a line feed is written with these
endings throughout.
-/

namespace ChangeImpact

inductive LineEnding where
  | lf | crlf
  deriving DecidableEq, Repr

def LineEnding.text : LineEnding → String
  | lf => "\n"
  | crlf => "\r\n"

structure Document where
  lines : List String
  ending : LineEnding
  trailingNewline : Bool
  deriving DecidableEq, Repr

namespace Document

/-- Whether a carriage return stands right before a line feed. -/
def hasCrlf : List Char → Bool
  | '\r' :: '\n' :: _ => true
  | _ :: rest => hasCrlf rest
  | [] => false

/-- Reads a text. An empty one gets a final line ending as soon as it gets a line. -/
def parse (content : String) : Document :=
  { lines := Text.lines content
    ending := if hasCrlf content.toList then .crlf else .lf
    trailingNewline := content.toList.getLast?.all (· == '\n') }

def render (doc : Document) : String :=
  Text.joinWith doc.ending.text doc.lines ++
    if doc.trailingNewline && !doc.lines.isEmpty then doc.ending.text else ""

def length (doc : Document) : Nat :=
  doc.lines.length

def line? (doc : Document) (index : Nat) : Option String :=
  doc.lines[index]?

def matchesAt (doc : Document) (expected : String) (index : Nat) : Bool :=
  (doc.line? index).any fun line => Text.trim line == expected

/-- The nearest line from `distance` on and below `distance + count` lines away that is a given
text, the upper one of two. -/
def searchOutward (doc : Document) (index : Nat) (expected : String) (distance : Nat) :
    Nat → Option Nat
  | 0 => none
  | count + 1 =>
    if distance ≤ index && doc.matchesAt expected (index - distance) then some (index - distance)
    else if doc.matchesAt expected (index + distance) then some (index + distance)
    else searchOutward doc index expected (distance + 1) count

/-- The line that is a given text, blanks around both left out: the line at `index`, or else the
nearest one at most `window` lines away, the upper one of two. -/
def find? (doc : Document) (index : Nat) (expected : String) (window : Nat) : Option Nat :=
  let expected := Text.trim expected
  if doc.matchesAt expected index then some index
  else doc.searchOutward index expected 1 window

def replace (doc : Document) (index : Nat) (text : String) : Document :=
  { doc with lines := doc.lines.set index text }

def delete (doc : Document) (index : Nat) : Document :=
  { doc with lines := doc.lines.eraseIdx index }

/-- Inserts a line before the one at `index`, or at the end if there is none. -/
def insert (doc : Document) (index : Nat) (text : String) : Document :=
  { doc with lines := doc.lines.take index ++ text :: doc.lines.drop index }

end Document

end ChangeImpact
