/-!
# Blank characters and trimming

The Unicode property `White_Space`, and removing it from the ends of a text. Trimming is stated on
`List Char`; the functions on `String` are the same rules on a string's characters.
-/

namespace ChangeImpact.Text

def isBlank (c : Char) : Bool :=
  let n := c.val.toNat
  (0x09 ≤ n && n ≤ 0x0D) || n == 0x20 || n == 0x85 || n == 0xA0 || n == 0x1680 ||
    (0x2000 ≤ n && n ≤ 0x200A) || n == 0x2028 || n == 0x2029 || n == 0x202F || n == 0x205F ||
    n == 0x3000

/-- Blank characters within ASCII that indent a line: space and tab. -/
def isIndent (c : Char) : Bool :=
  c == ' ' || c == '\t'

def trimStartChars (text : List Char) : List Char :=
  text.dropWhile isBlank

def trimEndChars (text : List Char) : List Char :=
  (text.reverse.dropWhile isBlank).reverse

def trimChars (text : List Char) : List Char :=
  trimEndChars (trimStartChars text)

def leadingBlanks (text : List Char) : List Char :=
  text.takeWhile isBlank

def trim (text : String) : String :=
  String.ofList (trimChars text.toList)

def indentation (line : String) : String :=
  String.ofList (leadingBlanks line.toList)

end ChangeImpact.Text
