import ChangeImpact.Text.Alphabetic
import ChangeImpact.Text.Mark
import ChangeImpact.Text.Number

/-!
# Word and identifier characters

Three classes that differ beyond ASCII: word characters (letters, marks, decimal digits, connectors
and join controls), alphanumeric characters (letters and numbers of every kind, but no marks), and
the characters of a source identifier.
-/

namespace ChangeImpact.Text

def inRanges (ranges : List (Nat × Nat)) (n : Nat) : Bool :=
  ranges.any fun range => range.1 ≤ n && n ≤ range.2

def isAsciiLetter (c : Char) : Bool :=
  ('a' ≤ c && c ≤ 'z') || ('A' ≤ c && c ≤ 'Z')

def isAsciiUpper (c : Char) : Bool :=
  'A' ≤ c && c ≤ 'Z'

def isAsciiDigit (c : Char) : Bool :=
  '0' ≤ c && c ≤ '9'

def isAscii (c : Char) : Bool :=
  c.val.toNat < 128

def isDecimalDigit (c : Char) : Bool :=
  if isAscii c then isAsciiDigit c else inRanges decimalRanges c.val.toNat

/-- Letters and numbers of every kind. -/
def isAlphanumeric (c : Char) : Bool :=
  if isAscii c then isAsciiLetter c || isAsciiDigit c
  else
    inRanges alphabeticRanges c.val.toNat || inRanges decimalRanges c.val.toNat ||
      inRanges otherNumberRanges c.val.toNat

/-- Connector punctuation beyond the ASCII underscore. -/
def connectorRanges : List (Nat × Nat) := [
  (0x203F, 0x2040), (0x2054, 0x2054), (0xFE33, 0xFE34), (0xFE4D, 0xFE4F), (0xFF3F, 0xFF3F)]

def joinControlRanges : List (Nat × Nat) := [(0x200C, 0x200D)]

/-- Letters, marks, decimal digits, connectors and join controls. -/
def isWord (c : Char) : Bool :=
  if isAscii c then isAsciiLetter c || isAsciiDigit c || c == '_'
  else
    inRanges alphabeticRanges c.val.toNat || inRanges markRanges c.val.toNat ||
      inRanges decimalRanges c.val.toNat || inRanges connectorRanges c.val.toNat ||
      inRanges joinControlRanges c.val.toNat

/-- Characters an identifier may begin with in a declaration: an ASCII letter, `_` or `$`. -/
def isNameStart (c : Char) : Bool :=
  isAsciiLetter c || c == '_' || c == '$'

/-- Characters that continue an identifier in a declaration: word characters and `$`. -/
def isNameChar (c : Char) : Bool :=
  isWord c || c == '$'

/-- Characters that, next to an occurrence of a name, keep it from being a whole identifier. -/
def isIdentifierChar (c : Char) : Bool :=
  isAlphanumeric c || c == '_' || c == '$'

end ChangeImpact.Text
