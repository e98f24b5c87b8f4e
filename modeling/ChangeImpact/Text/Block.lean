import ChangeImpact.Text.Blank
import ChangeImpact.Text.Bytes
import ChangeImpact.Text.Cut
import ChangeImpact.Text.Word

/-!
# Brace blocks and their members

The text between a brace and its partner, and the members of a block: the pieces separated by
semicolons, commas or line feeds outside every bracket and generic argument. `Balanced` says what a
block's body is without counting: it is built from other characters and bodies in braces.
-/

namespace ChangeImpact.Text

/-- Texts in which every brace has its partner. -/
inductive Balanced : List Char → Prop
  | nil : Balanced []
  | plain {c : Char} {rest : List Char} :
      c ≠ '{' → c ≠ '}' → Balanced rest → Balanced (c :: rest)
  | block {body rest : List Char} :
      Balanced body → Balanced rest → Balanced ('{' :: (body ++ '}' :: rest))

/-- The body of a block entered `depth + 1` times whose text so far is `front`, in reverse. -/
def blockAux (depth : Nat) (front : List Char) : List Char → Option (List Char)
  | [] => none
  | '{' :: rest => blockAux (depth + 1) ('{' :: front) rest
  | '}' :: rest =>
    match depth with
    | 0 => some front.reverse
    | depth + 1 => blockAux depth ('}' :: front) rest
  | c :: rest => blockAux depth (c :: front) rest

def blockAfterBrace (text : List Char) : Option (List Char) :=
  blockAux 0 [] text

/-- The body of the block that begins with a brace at the byte offset `start`. -/
def blockAt (text : List Char) (start : Nat) : Option (List Char) :=
  match dropBytes? text start with
  | some ('{' :: rest) => blockAfterBrace rest
  | _ => none

/-- The body of the first block of a text, unless a semicolon ends the statement before it. -/
def firstBlock (text : List Char) : Option (List Char) :=
  match cutAt? (· == '{') text with
  | some (front, rest) => if front.contains ';' then none else blockAfterBrace rest
  | none => none

def firstBlockFrom (text : List Char) (start : Nat) : Option (List Char) :=
  (dropBytes? text start).bind firstBlock

/-- Where a scan of members stands: nesting of brackets, of generic arguments, last character. -/
structure Nesting where
  depth : Int
  angle : Nat
  last : Char
  deriving DecidableEq, Repr

namespace Nesting

def start : Nesting := ⟨0, 0, Char.ofNat 0⟩

/-- The nesting after one more character. A generic argument opens only right after a letter or
digit, and the `>` of an arrow closes none. -/
def step (nesting : Nesting) (c : Char) : Nesting :=
  if c == '{' || c == '[' || c == '(' then ⟨nesting.depth + 1, nesting.angle, c⟩
  else if c == '}' || c == ']' || c == ')' then ⟨nesting.depth - 1, nesting.angle, c⟩
  else if c == '<' && isAlphanumeric nesting.last then ⟨nesting.depth, nesting.angle + 1, c⟩
  else if c == '>' && nesting.last != '=' then ⟨nesting.depth, nesting.angle - 1, c⟩
  else ⟨nesting.depth, nesting.angle, c⟩

/-- Whether a separator here stands between two members. -/
def outside (nesting : Nesting) : Bool :=
  nesting.depth ≤ 0 && nesting.angle == 0

end Nesting

def isMemberSeparator (c : Char) : Bool :=
  c == ';' || c == ',' || c == '\n'

/-- A member as listed: trimmed, and left out when blank or the beginning of a comment. -/
def member? (raw : List Char) : Option (List Char) :=
  match trimChars raw with
  | [] => none
  | '*' :: _ => none
  | '/' :: '/' :: _ => none
  | '/' :: '*' :: _ => none
  | member => some member

/-- The members from where a scan stands, `front` being the member begun, in reverse. -/
def membersAux (nesting : Nesting) (front : List Char) : List Char → List (List Char)
  | [] => (member? front.reverse).toList
  | c :: rest =>
    if isMemberSeparator c && nesting.outside then
      (member? front.reverse).toList ++ membersAux (nesting.step c) [] rest
    else membersAux (nesting.step c) (c :: front) rest

def members (body : List Char) : List (List Char) :=
  membersAux .start [] body

end ChangeImpact.Text
