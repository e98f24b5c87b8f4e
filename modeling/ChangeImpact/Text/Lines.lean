import ChangeImpact.Text.Bytes

/-!
# Lines

A line ends at a line feed, and one carriage return before the line feed belongs to the ending. A
text that ends in a line feed has no further line after it, and a carriage return at the very end
of a text belongs to its last line. Line numbers count from one.
-/

namespace ChangeImpact.Text

/-- A line as read, without the carriage return of its ending; the line is given in reverse. -/
def closeLine : List Char → List Char
  | '\r' :: front => front.reverse
  | front => front.reverse

/-- The lines of `text` after the characters `front` of a line begun, given in reverse. -/
def linesAux (front : List Char) : List Char → List (List Char)
  | [] => if front.isEmpty then [] else [front.reverse]
  | '\n' :: rest => closeLine front :: linesAux [] rest
  | c :: rest => linesAux (c :: front) rest

def linesChars (text : List Char) : List (List Char) :=
  linesAux [] text

def lines (text : String) : List String :=
  (linesChars text.toList).map String.ofList

/-- The byte offsets, from `offset` on, at which a line begins after a line feed. -/
def lineStartsAux (offset : Nat) : List Char → List Nat
  | [] => []
  | '\n' :: rest => (offset + 1) :: lineStartsAux (offset + 1) rest
  | c :: rest => lineStartsAux (offset + c.utf8Size) rest

/-- The byte offsets at which the lines of a text begin, the offset after a final line feed
included. -/
def lineStarts (text : List Char) : List Nat :=
  0 :: lineStartsAux 0 text

/-- The number of the line that holds a byte offset: how many lines begin at or before it. -/
def lineOf (starts : List Nat) (offset : Nat) : Nat :=
  starts.countP (· ≤ offset)

end ChangeImpact.Text
