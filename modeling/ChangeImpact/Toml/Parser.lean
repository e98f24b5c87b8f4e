import ChangeImpact.Toml.Scalar
import ChangeImpact.Toml.Table

/-!
# Reading TOML

A document is a list of headers and of keys with values, each on lines of its own. It is read as the
JSON object that holds the same values. Values nested 80 deep are refused, and keys of 80 parts.
-/

namespace ChangeImpact

namespace Toml

def skipSpace (text : List Char) : List Char :=
  text.dropWhile isSpace

/-- The text after a comment, if one begins here; it holds no control characters. -/
def skipComment : List Char → List Char
  | '#' :: rest => rest.dropWhile isPlain
  | text => text

def afterLine? (text : List Char) : Option (List Char) :=
  match skipComment (skipSpace text) with
  | [] => some []
  | rest => afterNewline? rest

/-- Skips blanks, line endings and comments; the flag tells that a comment is being skipped. -/
def skipLines : Bool → List Char → Option (List Char)
  | _, [] => some []
  | true, c :: rest =>
    if c == '\n' then skipLines false rest
    else if isPlain c || (c == '\r' && rest.head? == some '\n') then skipLines true rest
    else none
  | false, c :: rest =>
    if c == '#' then skipLines true rest
    else if isSpace c || c == '\n' then skipLines false rest
    else if c == '\r' then if rest.head? == some '\n' then skipLines false rest else none
    else some (c :: rest)

def isKeyChar (c : Char) : Bool :=
  c.isAlphanum || c == '-' || c == '_'

def keyPart? : List Char → Option (String × List Char)
  | '"' :: rest => quotedLine? '"' rest
  | '\'' :: rest => quotedLine? '\'' rest
  | text =>
    let part := text.takeWhile isKeyChar
    if part.isEmpty then none else some (String.ofList part, text.drop part.length)

def keyAux : Nat → List Char → Option (List String × List Char)
  | 0, _ => none
  | fuel + 1, text =>
    match keyPart? (skipSpace text) with
    | none => none
    | some (part, rest) =>
      match skipSpace rest with
      | '.' :: rest => (keyAux fuel rest).map fun (parts, rest) => (part :: parts, rest)
      | rest => some ([part], rest)

def depthLimit : Nat := 80

/-- A key: its parts but the last, and the last one. -/
def key? (text : List Char) : Option ((List String × String) × List Char) := do
  let (parts, rest) ← keyAux (text.length + 1) text
  if depthLimit ≤ parts.length then none
  let last ← parts.getLast?
  return ((parts.dropLast, last), rest)

mutual

/-- Reads a value. `depth` is how much deeper it may be nested, and `fuel` bounds the steps. -/
def valueAux : Nat → Nat → List Char → Option (Json × List Char)
  | 0, _, _ => none
  | fuel + 1, depth, text =>
    match text with
    | '"' :: rest => (quoted? '"' rest).map fun (value, rest) => (.str value, rest)
    | '\'' :: rest => (quoted? '\'' rest).map fun (value, rest) => (.str value, rest)
    | '[' :: rest =>
      match depth with
      | 0 => none
      | depth + 1 => (itemsAux fuel depth rest).map fun (items, rest) => (.arr items, rest)
    | '\x7b' :: rest =>
      match depth with
      | 0 => none
      | depth + 1 =>
        match skipSpace rest with
        | '\x7d' :: rest => some (.obj [], rest)
        | rest => (membersAux fuel depth [] rest).map fun (members, rest) => (members.toJson, rest)
    | text => scalar? text

/-- Reads the items of a list up to its closing bracket. A comma may follow the last one. -/
def itemsAux : Nat → Nat → List Char → Option (List Json × List Char)
  | 0, _, _ => none
  | fuel + 1, depth, text =>
    match skipLines false text with
    | none => none
    | some (']' :: rest) => some ([], rest)
    | some text =>
      match valueAux fuel depth text with
      | none => none
      | some (item, rest) =>
        match skipLines false rest with
        | some (',' :: rest) =>
          (itemsAux fuel depth rest).map fun (items, rest) => (item :: items, rest)
        | some (']' :: rest) => some ([item], rest)
        | _ => none

def membersAux : Nat → Nat → TomlTable → List Char → Option (TomlTable × List Char)
  | 0, _, _, _ => none
  | fuel + 1, depth, members, text =>
    match key? text with
    | some ((path, key), '=' :: rest) =>
      match valueAux fuel depth (skipSpace rest) with
      | none => none
      | some (value, rest) =>
        match members.addValue path key value with
        | none => none
        | some members =>
          match skipSpace rest with
          | ',' :: rest => membersAux fuel depth members rest
          | '\x7d' :: rest => some (members, rest)
          | _ => none
    | _ => none

end

def value? (text : List Char) : Option (Json × List Char) :=
  valueAux (2 * text.length + 2) (depthLimit - 1) text

/-- What has been read of a document: its tables, and the header that later keys belong to. -/
structure Progress where
  tables : TomlTable
  header : List String

namespace Progress

def addValue (progress : Progress) (path : List String) (key : String) (value : Json) :
    Option Progress :=
  (TomlTable.changeAt false (fun _ members => TomlTable.addValue path key value members)
    progress.header .header progress.tables).map fun tables => { progress with tables }

def addTable (progress : Progress) (path : List String) (key : String) : Option Progress :=
  (progress.tables.addTable path key).map fun tables => ⟨tables, path ++ [key]⟩

def addElement (progress : Progress) (path : List String) (key : String) : Option Progress :=
  (progress.tables.addElement path key).map fun tables => ⟨tables, path ++ [key]⟩

/-- Reads one header, or one key with its value, to the end of its line. -/
def readLine? (progress : Progress) (text : List Char) : Option (Progress × List Char) := do
  match text with
  | '[' :: '[' :: rest =>
    match ← key? rest with
    | ((path, key), ']' :: ']' :: rest) =>
      return (← progress.addElement path key, ← afterLine? rest)
    | _ => none
  | '[' :: rest =>
    match ← key? rest with
    | ((path, key), ']' :: rest) => return (← progress.addTable path key, ← afterLine? rest)
    | _ => none
  | text =>
    match ← key? text with
    | ((path, key), '=' :: rest) =>
      let (value, rest) ← value? (skipSpace rest)
      return (← progress.addValue path key value, ← afterLine? rest)
    | _ => none

/-- Reads the lines of a document; each takes away some of the text, so its length bounds them. -/
def readAux (progress : Progress) : Nat → List Char → Option Progress
  | 0, _ => none
  | fuel + 1, text =>
    match skipLines false text with
    | none => none
    | some [] => some progress
    | some text =>
      match progress.readLine? text with
      | none => none
      | some (progress, rest) => readAux progress fuel rest

end Progress

/-- Reads a document. A byte order mark may stand in front of it. -/
def parse? (text : String) : Option Json :=
  let chars :=
    match text.toList with
    | '\ufeff' :: rest => rest
    | chars => chars
  (Progress.readAux ⟨[], []⟩ (chars.length + 1) chars).map fun progress => progress.tables.toJson

end Toml

end ChangeImpact
