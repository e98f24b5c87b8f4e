import ChangeImpact.Json.Basic

/-!
# Reading JSON

A reader of JSON texts. Texts nested more than 127 deep are refused, numbers too large for a double
are refused, and whole numbers beyond 64 bits are read as fractions.
-/

namespace ChangeImpact

namespace Json

def isSpace (c : Char) : Bool :=
  c == ' ' || c == '\n' || c == '\r' || c == '\t'

def skipSpace (text : List Char) : List Char :=
  text.dropWhile isSpace

def digitValue? (c : Char) : Option Nat :=
  if '0' ≤ c && c ≤ '9' then some (c.toNat - '0'.toNat) else none

def hexValue? (c : Char) : Option Nat :=
  if '0' ≤ c && c ≤ '9' then some (c.toNat - '0'.toNat)
  else if 'a' ≤ c && c ≤ 'f' then some (c.toNat - 'a'.toNat + 10)
  else if 'A' ≤ c && c ≤ 'F' then some (c.toNat - 'A'.toNat + 10)
  else none

/-- The number that decimal digits stand for; other characters are left out. -/
def decimalValue (digits : List Char) : Nat :=
  (digits.filterMap digitValue?).foldl (fun value digit => value * 10 + digit) 0

def hexUnit? : List Char → Option (Nat × List Char)
  | a :: b :: c :: d :: rest => do
    let a ← hexValue? a
    let b ← hexValue? b
    let c ← hexValue? c
    let d ← hexValue? d
    return (((a * 16 + b) * 16 + c) * 16 + d, rest)
  | _ => none

/-- The character of a unit escape whose digits come next; a character beyond 16 bits takes two
escapes, and half a pair alone is refused. -/
def unitEscape? (text : List Char) : Option (Char × List Char) :=
  match hexUnit? text with
  | none => none
  | some (unit, rest) =>
    if 0xD800 ≤ unit && unit < 0xDC00 then
      match rest with
      | '\\' :: 'u' :: rest =>
        match hexUnit? rest with
        | some (low, rest) =>
          if 0xDC00 ≤ low && low < 0xE000 then
            some (Char.ofNat (0x10000 + (unit - 0xD800) * 0x400 + (low - 0xDC00)), rest)
          else none
        | none => none
      | _ => none
    else if 0xDC00 ≤ unit && unit < 0xE000 then none
    else some (Char.ofNat unit, rest)

def escape? : List Char → Option (Char × List Char)
  | '"' :: rest => some ('"', rest)
  | '\\' :: rest => some ('\\', rest)
  | '/' :: rest => some ('/', rest)
  | 'b' :: rest => some (Char.ofNat 8, rest)
  | 'f' :: rest => some (Char.ofNat 12, rest)
  | 'n' :: rest => some ('\n', rest)
  | 'r' :: rest => some ('\r', rest)
  | 't' :: rest => some ('\t', rest)
  | 'u' :: rest => unitEscape? rest
  | _ => none

/-- The text up to the closing quote, escapes still in it, and the rest; `front` is what stands
before, in reverse. -/
def quotedAux (front : List Char) : List Char → Option (List Char × List Char)
  | [] => none
  | '"' :: rest => some (front.reverse, rest)
  | '\\' :: c :: rest => quotedAux (c :: '\\' :: front) rest
  | c :: rest => quotedAux (c :: front) rest

/-- The text that characters with escapes stand for; control characters are refused. -/
def unescape? : Nat → List Char → Option (List Char)
  | _, [] => some []
  | 0, _ => none
  | fuel + 1, c :: rest =>
    if c == '\\' then
      match escape? rest with
      | some (c, rest) => (unescape? fuel rest).map (c :: ·)
      | none => none
    else if c.toNat < 32 then none
    else (unescape? fuel rest).map (c :: ·)

def string? (text : List Char) : Option (String × List Char) :=
  match quotedAux [] text with
  | none => none
  | some (quoted, rest) =>
    (unescape? quoted.length quoted).map fun value => (String.ofList value, rest)

def digits (text : List Char) : List Char × List Char :=
  (text.takeWhile Char.isDigit, text.dropWhile Char.isDigit)

/-- The digits of a whole part: a zero alone or digits that begin with another one. -/
def wholePart? (text : List Char) : Option (List Char × List Char) :=
  match digits text with
  | ([], _) => none
  | (['0'], rest) => some (['0'], rest)
  | ('0' :: _, _) => none
  | (front, rest) => some (front, rest)

def fractionPart? : List Char → Option (Option (List Char) × List Char)
  | '.' :: rest =>
    match digits rest with
    | ([], _) => none
    | (front, rest) => some (some front, rest)
  | text => some (none, text)

def exponentDigits? (negative : Bool) (text : List Char) : Option (Option Int × List Char) :=
  match digits text with
  | ([], _) => none
  | (front, rest) =>
    let value : Int := decimalValue front
    some (some (if negative then -value else value), rest)

def exponentPart? : List Char → Option (Option Int × List Char)
  | c :: rest =>
    if c == 'e' || c == 'E' then
      match rest with
      | '-' :: rest => exponentDigits? true rest
      | '+' :: rest => exponentDigits? false rest
      | rest => exponentDigits? false rest
    else some (none, c :: rest)
  | [] => some (none, [])

/-- The least number that is too large for a double: half a unit above the largest one. -/
def doubleLimit : Nat :=
  Nat.pow 2 1024 - Nat.pow 2 970

/-- The fraction `±coefficient · 10 ^ exponent`, refused if it is too large for a double and zero
below `10 ^ (-400)`. -/
def scaled? (negative : Bool) (coefficient : Nat) (exponent : Int) : Option Json :=
  let size : Int := (Nat.toDigits 10 coefficient).length + exponent
  if coefficient = 0 || size < -400 then some (decimal ⟨negative, 0, 1⟩)
  else if 309 < size then none
  else if exponent < 0 then
    if doubleLimit * Nat.pow 10 exponent.natAbs ≤ coefficient then none
    else some (decimal ⟨negative, coefficient, exponent.natAbs⟩)
  else if doubleLimit ≤ coefficient * Nat.pow 10 exponent.natAbs then none
  else some (decimal ⟨negative, coefficient * Nat.pow 10 exponent.natAbs, 0⟩)

def numberValue? (negative : Bool) (whole : List Char) (fraction : Option (List Char))
    (exponent : Option Int) : Option Json :=
  match fraction, exponent with
  | none, none =>
    let value := decimalValue whole
    if negative then
      if value = 0 then some (decimal ⟨true, 0, 1⟩)
      else if value ≤ 0x8000000000000000 then some (int (-(value : Int)))
      else scaled? true value 0
    else if value < 0x10000000000000000 then some (int value)
    else scaled? false value 0
  | _, _ =>
    let places := fraction.getD []
    scaled? negative (decimalValue (whole ++ places)) (exponent.getD 0 - places.length)

def unsigned? (negative : Bool) (text : List Char) : Option (Json × List Char) := do
  let (whole, rest) ← wholePart? text
  let (fraction, rest) ← fractionPart? rest
  let (exponent, rest) ← exponentPart? rest
  return (← numberValue? negative whole fraction exponent, rest)

def number? : List Char → Option (Json × List Char)
  | '-' :: rest => unsigned? true rest
  | text => unsigned? false text

mutual

/-- Reads a value at the beginning of a text. `depth` is how much deeper it may be nested, and
`fuel` bounds the steps; twice the length of the text is always enough. -/
def valueAux : Nat → Nat → List Char → Option (Json × List Char)
  | 0, _, _ => none
  | fuel + 1, depth, text =>
    match skipSpace text with
    | 'n' :: 'u' :: 'l' :: 'l' :: rest => some (null, rest)
    | 't' :: 'r' :: 'u' :: 'e' :: rest => some (bool true, rest)
    | 'f' :: 'a' :: 'l' :: 's' :: 'e' :: rest => some (bool false, rest)
    | '"' :: rest => (string? rest).map fun (value, rest) => (str value, rest)
    | '[' :: rest =>
      match depth with
      | 0 => none
      | depth + 1 =>
        match skipSpace rest with
        | ']' :: rest => some (arr [], rest)
        | rest => (itemsAux fuel depth rest).map fun (items, rest) => (arr items, rest)
    | '{' :: rest =>
      match depth with
      | 0 => none
      | depth + 1 =>
        match skipSpace rest with
        | '}' :: rest => some (obj [], rest)
        | rest => (membersAux fuel depth rest).map fun (members, rest) => (obj members, rest)
    | text => number? text

def itemsAux : Nat → Nat → List Char → Option (List Json × List Char)
  | 0, _, _ => none
  | fuel + 1, depth, text =>
    match valueAux fuel depth text with
    | none => none
    | some (item, rest) =>
      match skipSpace rest with
      | ',' :: rest => (itemsAux fuel depth rest).map fun (items, rest) => (item :: items, rest)
      | ']' :: rest => some ([item], rest)
      | _ => none

def membersAux : Nat → Nat → List Char → Option (List (String × Json) × List Char)
  | 0, _, _ => none
  | fuel + 1, depth, text =>
    match skipSpace text with
    | '"' :: rest =>
      match string? rest with
      | none => none
      | some (name, rest) =>
        match skipSpace rest with
        | ':' :: rest =>
          match valueAux fuel depth rest with
          | none => none
          | some (value, rest) =>
            match skipSpace rest with
            | ',' :: rest =>
              (membersAux fuel depth rest).map fun (members, rest) =>
                ((name, value) :: members, rest)
            | '}' :: rest => some ([(name, value)], rest)
            | _ => none
        | _ => none
    | _ => none

end

def parse? (text : String) : Option Json :=
  let chars := text.toList
  match valueAux (2 * chars.length + 2) 127 chars with
  | some (value, rest) => if (skipSpace rest).isEmpty then some value else none
  | none => none

end Json

end ChangeImpact
