import ChangeImpact.Source.Import

/-!
# Exported names

The names a source text exports: by a declaration, by a default export of a name or of an anonymous
value, and by a list in braces.
-/

namespace ChangeImpact

namespace ExportRef

def exportKeyword : Pattern :=
  .all [.indentedLine, .lit "export", .blanks1]

def modifier (word : String) : Pattern :=
  .opt (.all [.lit word, .blanks1])

/-- An exported declaration: `default` is part 1, the keyword part 2 and the name part 3. -/
def declaration : Pattern :=
  .all [exportKeyword, .opt (.group 1 (.all [.lit "default", .blanks1])), modifier "declare",
    modifier "abstract", modifier "async",
    .group 2 (.any [.seq (.lit "function") (.opt (.char '*')), .lit "class", .lit "interface",
      .lit "type", .all [.lit "const", .blanks1, .lit "enum"], .lit "enum", .lit "const",
      .lit "let", .lit "var"]),
    .blanks1, .group 3 .identifier]

/-- A default export of a name alone, which is part 1. -/
def defaultName : Pattern :=
  .all [exportKeyword, .lit "default", .blanks1, .group 1 .identifier, .blanks, .opt (.char ';'),
    .blanks, .anchor .lineEnd]

def defaultAny : Pattern :=
  .all [exportKeyword, .lit "default", .wordBoundary]

/-- A list of exports: `type` is part 1, the text between the braces part 2. -/
def exportList : Pattern :=
  .all [exportKeyword, .opt (.group 1 (.all [.lit "type", .blanks1])), .char '{',
    .group 2 (.many (· != '}')), .char '}']

def lineOfMatch (starts : List Nat) (found : Match) : Nat :=
  Text.lineOf starts found.inkOffset

def declaredKind (found : Match) : ExportKind :=
  if found.has 1 then .default
  else
    match String.ofList (found.part 2) with
    | "interface" => .interface
    | "type" => .typeAlias
    | _ => .named

/-- The exports of the entries of a list; an entry goes by its alias if it has one. -/
def ofEntries (listTypeOnly : Bool) (line : Nat) (entries : List Char) : List ExportRef :=
  (NamedImport.parseList entries).map fun named =>
    ⟨named.localName, if listTypeOnly || named.typeOnly then .typeAlias else .named, line⟩

/-- Adds a default export without a name, unless its line has a default export already. -/
def addAnonymous (exports : List ExportRef) (line : Nat) : List ExportRef :=
  if exports.any fun other => other.kind == .default && other.line == line then exports
  else exports ++ [⟨"default", .default, line⟩]

/-- All exports of a source text by line; of one line, declarations stand first, then default
exports, then lists. -/
def parseAll (text : List Char) : List ExportRef :=
  let starts := Text.lineStarts text
  let declared := (declaration.allMatches text).map fun found =>
    (⟨String.ofList (found.part 3), declaredKind found, lineOfMatch starts found⟩ : ExportRef)
  let names := (defaultName.allMatches text).map fun found =>
    (⟨String.ofList (found.part 1), .default, lineOfMatch starts found⟩ : ExportRef)
  let defaults := ((defaultAny.allMatches text).map (lineOfMatch starts)).foldl addAnonymous
    (declared ++ names)
  let listed := (exportList.allMatches text).flatMap fun found =>
    ofEntries (found.has 1) (lineOfMatch starts found) (found.part 2)
  Ascending.sortByKey (·.line) (defaults ++ listed)

end ExportRef

end ChangeImpact
