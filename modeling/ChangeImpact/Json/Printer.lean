import ChangeImpact.Json.Basic

/-!
# Writing JSON

A compact form on one line, and a form with one value on each line, indented by two spaces.
-/

namespace ChangeImpact

namespace Json

def hexDigit (n : Nat) : Char :=
  Char.ofNat (if n < 10 then '0'.toNat + n else 'a'.toNat + (n - 10))

/-- A character as it stands between the quotes of a text: quotes, backslashes and control
characters are escaped, all others stand for themselves. -/
def escapeChar (c : Char) : List Char :=
  if c == '"' then ['\\', '"']
  else if c == '\\' then ['\\', '\\']
  else if c == '\n' then ['\\', 'n']
  else if c == '\r' then ['\\', 'r']
  else if c == '\t' then ['\\', 't']
  else if c.toNat == 8 then ['\\', 'b']
  else if c.toNat == 12 then ['\\', 'f']
  else if c.toNat < 32 then
    ['\\', 'u', '0', '0', hexDigit (c.toNat / 16), hexDigit (c.toNat % 16)]
  else [c]

def quote (text : String) : String :=
  String.ofList ('"' :: (text.toList.flatMap escapeChar ++ ['"']))

/-- The digits of a fraction with the point `places` digits from the end, one digit or more before
it. -/
def decimalDigits (digits : List Char) (places : Nat) : List Char :=
  let padded := List.replicate (places + 1 - digits.length) '0' ++ digits
  padded.take (padded.length - places) ++ '.' :: padded.drop (padded.length - places)

/-- A decimal fraction with its point, at least one digit being written after it. -/
def decimalText (fraction : DecimalFraction) : String :=
  let (coefficient, places) :=
    if fraction.places = 0 then (fraction.coefficient * 10, 1)
    else (fraction.coefficient, fraction.places)
  let digits := decimalDigits (Nat.toDigits 10 coefficient) places
  String.ofList (if fraction.negative then '-' :: digits else digits)

def intText (value : Int) : String :=
  let digits := Nat.toDigits 10 value.natAbs
  String.ofList (if value < 0 then '-' :: digits else digits)

mutual

def compact : Json → String
  | null => "null"
  | bool true => "true"
  | bool false => "false"
  | int value => intText value
  | decimal value => decimalText value
  | str value => quote value
  | arr items => "[" ++ ",".intercalate (compactItems items) ++ "]"
  | obj members => "\x7b" ++ ",".intercalate (compactMembers members) ++ "\x7d"

def compactItems : List Json → List String
  | [] => []
  | item :: rest => compact item :: compactItems rest

def compactMembers : List (String × Json) → List String
  | [] => []
  | (name, value) :: rest => (quote name ++ ":" ++ compact value) :: compactMembers rest

end

/-- Lines one level deeper between two brackets, or the brackets alone if there are no lines. -/
def bracketed (opening closing : String) (indent : String) (entries : List String) : String :=
  if entries.isEmpty then opening ++ closing
  else
    opening ++ "\n" ++ ",\n".intercalate (entries.map ((indent ++ "  ") ++ ·)) ++ "\n" ++ indent ++
      closing

mutual

/-- The form with one value on each line; `indent` is the indentation of the line it begins on. -/
def prettyFrom (indent : String) : Json → String
  | null => "null"
  | bool true => "true"
  | bool false => "false"
  | int value => intText value
  | decimal value => decimalText value
  | str value => quote value
  | arr items => bracketed "[" "]" indent (prettyItems (indent ++ "  ") items)
  | obj members => bracketed "\x7b" "\x7d" indent (prettyMembers (indent ++ "  ") members)

def prettyItems (indent : String) : List Json → List String
  | [] => []
  | item :: rest => prettyFrom indent item :: prettyItems indent rest

def prettyMembers (indent : String) : List (String × Json) → List String
  | [] => []
  | (name, value) :: rest =>
    (quote name ++ ": " ++ prettyFrom indent value) :: prettyMembers indent rest

end

def pretty (value : Json) : String :=
  prettyFrom "" value

end Json

end ChangeImpact
