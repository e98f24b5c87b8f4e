import ChangeImpact.Json.Parser
import ChangeImpact.Text.Cut

/-!
# Quoted texts of TOML

Texts between double quotes have escapes, texts between single quotes have none. Between triple
quotes a text may span lines; its line endings are line feeds, and a line feed at its very beginning
is left out.
-/

namespace ChangeImpact

namespace Toml

def isSpace (c : Char) : Bool :=
  c == ' ' || c == '\t'

/-- A character that may stand in a text as it is: a tab, or no control character. -/
def isPlain (c : Char) : Bool :=
  c == '\t' || (32 ≤ c.toNat && c.toNat != 127)

def afterNewline? : List Char → Option (List Char)
  | '\n' :: rest => some rest
  | '\r' :: '\n' :: rest => some rest
  | _ => none

/-- What the characters before tell about the next one. -/
inductive QuotedState where
  | plain
  /-- A backslash came before. -/
  | escaped
  /-- Some more hexadecimal digits of a character have to come. -/
  | digits (missing value : Nat)
  /-- Blanks and line endings are skipped, after a backslash at the end of a line. -/
  | skipping
  deriving DecidableEq, Repr

def escapedChar? (c : Char) : Option Char :=
  match c with
  | 'b' => some (Char.ofNat 8)
  | 'f' => some (Char.ofNat 12)
  | 'n' => some '\n'
  | 'r' => some '\r'
  | 't' => some '\t'
  | '"' => some '"'
  | '\\' => some '\\'
  | _ => none

def scalarValue? (value : Nat) : Option Char :=
  if h : value.isValidChar then some (Char.ofNatAux value h) else none

def unescape? (multiline : Bool) : QuotedState → List Char → Option (List Char)
  | .plain, [] | .skipping, [] => some []
  | .escaped, [] | .digits _ _, [] => none
  | .digits missing value, c :: rest => do
    let digit ← Json.hexValue? c
    let value := value * 16 + digit
    if missing ≤ 1 then
      let found ← scalarValue? value
      return found :: (← unescape? multiline .plain rest)
    else unescape? multiline (.digits (missing - 1) value) rest
  | .escaped, c :: rest =>
    if c == 'u' then unescape? multiline (.digits 4 0) rest
    else if c == 'U' then unescape? multiline (.digits 8 0) rest
    else
      match escapedChar? c with
      | some found => (unescape? multiline .plain rest).map (found :: ·)
      | none =>
        if multiline && (afterNewline? ((c :: rest).dropWhile isSpace)).isSome then
          unescape? multiline .skipping rest
        else none
  | state, c :: rest =>
    if c == '\\' then unescape? multiline .escaped rest
    else if c == '\r' && multiline && rest.head? == some '\n' then unescape? multiline state rest
    else if state == .skipping && (isSpace c || c == '\n') then unescape? multiline .skipping rest
    else if isPlain c || (multiline && c == '\n') then
      (unescape? multiline .plain rest).map (c :: ·)
    else none

def verbatim? (multiline : Bool) : List Char → Option (List Char)
  | [] => some []
  | c :: rest =>
    if c == '\r' && multiline && rest.head? == some '\n' then verbatim? multiline rest
    else if isPlain c || (multiline && c == '\n') then (verbatim? multiline rest).map (c :: ·)
    else none

/-- The text up to a closing quote and the rest. A quote after a backslash does not close a text
with escapes. -/
def upToQuote? (quote : Char) : List Char → Option (List Char × List Char)
  | [] => none
  | c :: rest =>
    if c == quote then some ([], rest)
    else if c == '\\' && quote == '"' then
      match rest with
      | [] => none
      | next :: rest => (upToQuote? quote rest).map fun (front, rest) => (c :: next :: front, rest)
    else (upToQuote? quote rest).map fun (front, rest) => (c :: front, rest)

/-- The text up to three closing quotes and the rest. Up to two more quotes before them belong to
the text. -/
def upToQuotes? (quote : Char) : List Char → Option (List Char × List Char)
  | [] => none
  | c :: rest =>
    let count := ((c :: rest).takeWhile (· == quote)).length
    if 3 ≤ count then
      some (List.replicate (min count 5 - 3) quote, (c :: rest).drop (min count 5))
    else if c == '\\' && quote == '"' then
      match rest with
      | [] => none
      | next :: rest => (upToQuotes? quote rest).map fun (front, rest) => (c :: next :: front, rest)
    else (upToQuotes? quote rest).map fun (front, rest) => (c :: front, rest)

def content? (quote : Char) (multiline : Bool) (text : List Char) : Option String :=
  (if quote == '"' then unescape? multiline .plain text else verbatim? multiline text).map
    String.ofList

def quotedLine? (quote : Char) (text : List Char) : Option (String × List Char) := do
  let (front, rest) ← upToQuote? quote text
  return (← content? quote false front, rest)

/-- A text whose opening quote has been read, on one line or between triple quotes. -/
def quoted? (quote : Char) (text : List Char) : Option (String × List Char) :=
  match Text.dropWord? [quote, quote] text with
  | some rest => do
    let (front, rest) ← upToQuotes? quote ((afterNewline? rest).getD rest)
    return (← content? quote true front, rest)
  | none => quotedLine? quote text

end Toml

end ChangeImpact
