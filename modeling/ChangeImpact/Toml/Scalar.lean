import ChangeImpact.Text.Cut
import ChangeImpact.Timestamp
import ChangeImpact.Toml.Quoted

/-!
# Numbers, dates and truth values of TOML

Values that are written without quotes or brackets, each as a word. What JSON has no value for, the
special fractions, dates and times, becomes `null`.
-/

namespace ChangeImpact

namespace Toml

/-- The digits of a number without the underscores between them. -/
def digits? (isDigit : Char → Bool) (text : List Char) : Option (List Char) :=
  let pieces := Text.splitChars '_' text
  if pieces.all fun piece => !piece.isEmpty && piece.all isDigit then some pieces.flatten else none

def valueIn (base : Nat) (digits : List Char) : Nat :=
  (digits.filterMap Json.hexValue?).foldl (fun value digit => value * base + digit) 0

def int64? (value : Int) : Option Json :=
  if -0x8000000000000000 ≤ value ∧ value < 0x8000000000000000 then some (.int value) else none

/-- Whether a digit belongs to a base of at most sixteen. -/
def isDigitIn (base : Nat) (c : Char) : Bool :=
  (Json.hexValue? c).any (· < base)

def signed : List Char → Bool × List Char
  | '-' :: rest => (true, rest)
  | '+' :: rest => (false, rest)
  | text => (false, text)

/-- The digits of a whole decimal number, with no zero before others. -/
def wholeDigits? (text : List Char) : Option (List Char) :=
  match digits? Char.isDigit text with
  | some ('0' :: _ :: _) => none
  | found => found

def integer? : List Char → Option Json
  | '0' :: 'x' :: text => ofBase 16 text
  | '0' :: 'o' :: text => ofBase 8 text
  | '0' :: 'b' :: text => ofBase 2 text
  | text =>
    let (negative, text) := signed text
    (wholeDigits? text).bind fun digits =>
      let value : Int := valueIn 10 digits
      int64? (if negative then -value else value)
where
  ofBase (base : Nat) (text : List Char) : Option Json :=
    (digits? (isDigitIn base) text).bind fun digits => int64? (valueIn base digits)

def exponent? (text : List Char) : Option Int :=
  let (negative, text) := signed text
  (digits? Char.isDigit text).map fun digits =>
    let value : Int := valueIn 10 digits
    if negative then -value else value

/-- A fraction: a whole number, with digits after a point, an exponent, or both. A fraction beyond
the doubles is refused, unless it is negative. -/
def fraction? (text : List Char) : Option Json := do
  let (negative, text) := signed text
  let (mantissa, exponent) ←
    match Text.cutAt? (fun c => c == 'e' || c == 'E') text with
    | some (front, rest) => (exponent? rest).map (front, ·)
    | none => if text.contains '.' then some (text, 0) else none
  let (whole, places) ←
    match Text.cutAt? (· == '.') mantissa with
    | some (front, rest) => (digits? Char.isDigit rest).map (front, ·)
    | none => some (mantissa, [])
  let digits ← wholeDigits? whole
  let value := Json.scaled? negative (valueIn 10 (digits ++ places)) (exponent - places.length)
  if negative then return value.getD .null else value

def isPair (low limit : Nat) (text : List Char) : Bool :=
  text.length == 2 && text.all Char.isDigit && low ≤ valueIn 10 text && valueIn 10 text < limit

def isDate (text : List Char) : Bool :=
  match Text.splitChars '-' text with
  | [year, month, day] =>
    year.length == 4 && year.all Char.isDigit && isPair 1 13 month &&
      isPair 1 (Timestamp.daysInMonth (valueIn 10 year) (valueIn 10 month) + 1) day
  | _ => false

def isTime (text : List Char) : Bool :=
  match Text.splitChars ':' text with
  | [hour, minute, second] =>
    let (whole, fraction) := (Text.cutAt? (· == '.') second).getD (second, ['0'])
    isPair 0 24 hour && isPair 0 60 minute && isPair 0 61 whole &&
      !fraction.isEmpty && fraction.all Char.isDigit
  | _ => false

def isOffset (text : List Char) : Bool :=
  match Text.splitChars ':' text with
  | [hour, minute] => isPair 0 24 hour && isPair 0 60 minute
  | _ => false

def isOffsetTime (text : List Char) : Bool :=
  match text.reverse with
  | 'Z' :: front | 'z' :: front => isTime front.reverse
  | _ =>
    match Text.cutAt? (fun c => c == '+' || c == '-') text with
    | some (time, offset) => isTime time && isOffset offset
    | none => isTime text

def isDateTime (text : List Char) : Bool :=
  isDate text || isTime text ||
    match text.drop 10 with
    | c :: time => (c == 'T' || c == 't' || c == ' ') && isDate (text.take 10) && isOffsetTime time
    | [] => false

/-- The fractions that no digits are written for. -/
def isSpecial (text : List Char) : Bool :=
  let (_, text) := signed text
  text == ['i', 'n', 'f'] || text == ['n', 'a', 'n']

def scalar (word : List Char) : Option Json :=
  if word == "true".toList then some (.bool true)
  else if word == "false".toList then some (.bool false)
  else if isSpecial word || isDateTime word then some .null
  else (integer? word).or (fraction? word)

def endsWord (c : Char) : Bool :=
  isSpace c || c == '\n' || c == '\r' || c == '#' || c == ',' || c == ']' || c == '\x7d'

/-- The word at the beginning of a text, and the rest. A time may follow its date after a blank. -/
def cutWord (text : List Char) : List Char × List Char :=
  let word := text.takeWhile (!endsWord ·)
  match text.drop word.length with
  | ' ' :: c :: rest =>
    if c.isDigit && isDate word then
      let time := (c :: rest).takeWhile (!endsWord ·)
      (word ++ ' ' :: time, (c :: rest).drop time.length)
    else (word, ' ' :: c :: rest)
  | rest => (word, rest)

def scalar? (text : List Char) : Option (Json × List Char) :=
  let (word, rest) := cutWord text
  (scalar word).map (·, rest)

end Toml

end ChangeImpact
