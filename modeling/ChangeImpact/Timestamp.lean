import ChangeImpact.Text.Blank

/-!
# Dates and times

The calendar of the days since 1970-01-01, the text of an instant, and which texts are instants: a
date, a time of day and an offset from universal time, with blanks allowed between the parts.
-/

namespace ChangeImpact.Timestamp

def isLeap (year : Int) : Bool :=
  (year % 4 == 0 && year % 100 != 0) || year % 400 == 0

def daysInMonth (year : Int) (month : Nat) : Nat :=
  if month == 2 then (if isLeap year then 29 else 28)
  else if month == 4 || month == 6 || month == 9 || month == 11 then 30
  else 31

/-- The year, month and day of a number of days since 1970-01-01. Years are counted from March, so
that the leap day is the last day of its year. -/
def civil (days : Int) : Int × Nat × Nat :=
  let shifted := days + 719468
  let era := shifted / 146097
  let dayOfEra := (shifted % 146097).toNat
  let yearOfEra := (dayOfEra - dayOfEra / 1460 + dayOfEra / 36524 - dayOfEra / 146096) / 365
  let dayOfYear := dayOfEra - (365 * yearOfEra + yearOfEra / 4 - yearOfEra / 100)
  let monthFromMarch := (5 * dayOfYear + 2) / 153
  let day := dayOfYear - (153 * monthFromMarch + 2) / 5 + 1
  let month := if monthFromMarch < 10 then monthFromMarch + 3 else monthFromMarch - 9
  let year := (yearOfEra : Int) + era * 400
  (if month ≤ 2 then year + 1 else year, month, day)

def padded (width n : Nat) : String :=
  let digits := Nat.toDigits 10 n
  String.ofList (List.replicate (width - digits.length) '0' ++ digits)

/-- The fraction of a second with three, six or nine digits, as few as it takes; none for zero. -/
def fractionText (nanoseconds : Nat) : String :=
  if nanoseconds == 0 then ""
  else if nanoseconds % 1000000 == 0 then "." ++ padded 3 (nanoseconds / 1000000)
  else if nanoseconds % 1000 == 0 then "." ++ padded 6 (nanoseconds / 1000)
  else "." ++ padded 9 nanoseconds

/-- The text of an instant in universal time, given in nanoseconds since 1970-01-01. -/
def render (nanoseconds : Nat) : String :=
  let seconds := nanoseconds / 1000000000
  let (year, month, day) := civil (seconds / 86400 : Nat)
  let clock := seconds % 86400
  padded 4 year.toNat ++ "-" ++ padded 2 month ++ "-" ++ padded 2 day ++ "T" ++
    padded 2 (clock / 3600) ++ ":" ++ padded 2 (clock / 60 % 60) ++ ":" ++ padded 2 (clock % 60) ++
    fractionText (nanoseconds % 1000000000) ++ "Z"

def digitsValue (digits : List Char) : Nat :=
  digits.foldl (fun value c => value * 10 + (c.toNat - '0'.toNat)) 0

/-- Up to `width` digits, at least one of them, and the rest. -/
def number? (width : Nat) (text : List Char) : Option (Nat × List Char) :=
  let digits := (text.takeWhile Char.isDigit).take width
  if digits.isEmpty then none else some (digitsValue digits, text.drop digits.length)

def field? (width : Nat) (text : List Char) : Option (Nat × List Char) :=
  number? width (Text.trimStartChars text)

/-- A year after blanks: four digits, or any number of them after a sign. -/
def year? (text : List Char) : Option (Int × List Char) :=
  match Text.trimStartChars text with
  | '-' :: rest => (number? rest.length rest).map fun (year, rest) => (-(year : Int), rest)
  | '+' :: rest => (number? rest.length rest).map fun (year, rest) => ((year : Int), rest)
  | rest => (number? 4 rest).map fun (year, rest) => ((year : Int), rest)

def separator? (c : Char) (text : List Char) : Option (List Char) :=
  match Text.trimStartChars text with
  | first :: rest => if first == c then some rest else none
  | [] => none

def fraction? : List Char → Option (List Char)
  | '.' :: rest =>
    if (rest.takeWhile Char.isDigit).isEmpty then none else some (rest.dropWhile Char.isDigit)
  | text => some text

def twoDigits? : List Char → Option (Nat × List Char)
  | a :: b :: rest => if a.isDigit && b.isDigit then some (digitsValue [a, b], rest) else none
  | _ => none

/-- The rest after an offset of hours and minutes less than a day. -/
def offset? (text : List Char) : Option (List Char) := do
  let (hours, rest) ← twoDigits? text
  let (minutes, rest) ← twoDigits? (rest.dropWhile fun c => c == ':' || Text.isBlank c)
  if minutes < 60 && hours < 24 then some rest else none

/-- The rest after a zone: `Z`, `UTC`, or a signed offset. -/
def zone? : List Char → Option (List Char)
  | c :: rest =>
    match (c :: rest.take 2).map Char.toUpper with
    | ['U', 'T', 'C'] => some (rest.drop 2)
    | _ =>
      if c == 'Z' || c == 'z' then some rest
      else if c == '+' || c == '-' || c == '−' then offset? rest
      else none
  | [] => none

def isInstant (text : List Char) : Bool :=
  Option.isSome <| show Option Unit from do
    let (year, rest) ← year? text
    let rest ← separator? '-' rest
    let (month, rest) ← field? 2 rest
    let rest ← separator? '-' rest
    let (day, rest) ← field? 2 rest
    let rest ← match rest with
      | c :: rest => if c == 'T' || c == 't' || c == ' ' then some rest else none
      | [] => none
    let (hour, rest) ← field? 2 rest
    let rest ← separator? ':' rest
    let (minute, rest) ← field? 2 rest
    let rest ← separator? ':' rest
    let (second, rest) ← field? 2 rest
    let rest ← fraction? rest
    let rest ← zone? (Text.trimStartChars rest)
    guard ((Text.trimStartChars rest).isEmpty && year.natAbs ≤ 262142 &&
      1 ≤ month && month ≤ 12 && 1 ≤ day && day ≤ daysInMonth year month &&
      hour < 24 && minute < 60 && second ≤ 60)

end ChangeImpact.Timestamp
