import ChangeImpact.Ascending
import ChangeImpact.Node
import ChangeImpact.Pattern.Search
import ChangeImpact.Specifier
import ChangeImpact.Text.Cut
import ChangeImpact.Text.Lines

/-!
# Import statements

The import statements, side-effect imports and re-exports of a source text, found by patterns that
begin at the start of a line, and the names that each of them brings in.
-/

namespace ChangeImpact

/-- One entry between the braces of an import or a re-export. -/
structure NamedImport where
  name : String
  /-- The name after `as`. -/
  asName : Option String
  typeOnly : Bool
  deriving DecidableEq, Repr

def NamedImport.localName (named : NamedImport) : String :=
  named.asName.getD named.name

/-- What a statement binds apart from its module: a default name, a name for the whole module, and
the entries between braces. -/
structure ImportClause where
  default : Option String := none
  wholeModule : Option String := none
  named : List NamedImport := []
  deriving DecidableEq, Repr

/-- An import statement: the line of its keyword, the line of its specifier, and what it binds. -/
structure ImportStatement where
  startLine : Nat
  endLine : Nat
  specifier : String
  typeOnly : Bool
  clause : ImportClause
  reexport : Bool
  sideEffect : Bool
  deriving DecidableEq, Repr

namespace NamedImport

/-- Reads an entry: an optional `type`, a name, and an optional `as` with another name. -/
def parse? (entry : List Char) : Option NamedImport :=
  let trimmed := Text.trimChars entry
  let (typeOnly, body) :=
    match Text.dropWord? "type ".toList trimmed with
    | some rest => (true, Text.trimChars rest)
    | none => (false, trimmed)
  if body.isEmpty then none
  else
    match Text.cutAtWord? " as ".toList body with
    | some (name, asName) =>
      some {
        name := String.ofList (Text.trimChars name)
        asName := some (String.ofList (Text.trimChars asName))
        typeOnly }
    | none => some ⟨String.ofList body, none, typeOnly⟩

def parseList (entries : List Char) : List NamedImport :=
  (Text.splitChars ',' entries).filterMap parse?

end NamedImport

namespace ImportClause

/-- Adds a binding that stands before the braces: a name for the whole module after `*`, or else a
default name. Of several bindings the last one holds. -/
def addBinding (clause : ImportClause) (binding : List Char) : ImportClause :=
  match Text.trimChars binding with
  | [] => clause
  | '*' :: rest =>
    let trimmed := Text.trimChars rest
    match Text.trimChars (Text.dropWords "as".toList trimmed.length trimmed) with
    | [] => clause
    | name => { clause with wholeModule := some (String.ofList name) }
  | name => { clause with default := some (String.ofList name) }

/-- Reads the text between `import` and `from`. -/
def parse (text : List Char) : ImportClause :=
  let trimmed := Text.trimChars text
  let (head, named) :=
    match Text.cutAt? (· == '{') trimmed with
    | some (head, rest) => (head, NamedImport.parseList (rest.takeWhile (· != '}')))
    | none => (trimmed, [])
  { (Text.splitChars ',' head).foldl addBinding {} with named }

end ImportClause

namespace ImportStatement

def isTypeOnly (statement : ImportStatement) : Bool :=
  statement.typeOnly ||
    (statement.clause.default.isNone && statement.clause.wholeModule.isNone &&
      !statement.clause.named.isEmpty && statement.clause.named.all (·.typeOnly))

def importsName (statement : ImportStatement) (name : String) : Bool :=
  statement.clause.named.any (·.name == name)

/-- Whether the statement depends on its module as a whole. -/
def importsModule (statement : ImportStatement) : Bool :=
  statement.clause.default.isSome || statement.clause.wholeModule.isSome || statement.sideEffect

/-- A reference of the statement, of type-only kind if the statement or the entry is. -/
def ref (statement : ImportStatement) (name : String) (typeOnly : Bool) (kind : ImportKind) :
    ImportRef :=
  ⟨name, statement.specifier, if statement.typeOnly || typeOnly then .typeOnly else kind,
    statement.startLine⟩

/-- One reference for each name the statement brings in; a side effect counts as the empty name. -/
def refs (statement : ImportStatement) : List ImportRef :=
  statement.clause.default.toList.map (statement.ref · false .default) ++
    statement.clause.wholeModule.toList.map (statement.ref · false .wholeModule) ++
    statement.clause.named.map (fun named => statement.ref named.name named.typeOnly .named) ++
    (if statement.sideEffect then
      [⟨"", statement.specifier, .sideEffect, statement.startLine⟩] else [])

def isQuote (c : Char) : Bool :=
  c == '\'' || c == '"'

/-- A specifier between quotes, which is part 3 of a match. -/
def quotedSpecifier : Pattern :=
  .all [.one isQuote, .group 3 (.many1 fun c => !isQuote c), .one isQuote]

def typeKeyword : Pattern :=
  .opt (.group 1 (.all [.lit "type", .blanks1]))

/-- The words `import`, `from` and a specifier, with what is bound as part 2. -/
def importFrom : Pattern :=
  .all [.indentedLine, .lit "import", .blanks1, typeKeyword,
    .group 2 (.few fun c => !(isQuote c || c == ';')), .blanks, .lit "from", .blanks,
    quotedSpecifier]

def importOnly : Pattern :=
  .all [.indentedLine, .lit "import", .blanks, quotedSpecifier]

/-- The words `export`, `from` and a specifier, with a star or the braces as part 2. -/
def exportFrom : Pattern :=
  .all [.indentedLine, .lit "export", .blanks1, typeKeyword,
    .group 2 (.alt
      (.all [.char '*', .opt (.all [.blanks1, .lit "as", .blanks1, .identifier])])
      (.all [.char '{', .many (· != '}'), .char '}'])),
    .blanks, .lit "from", .blanks, quotedSpecifier]

def ofMatch (starts : List Nat) (found : Match) (clause : ImportClause)
    (reexport sideEffect : Bool) : ImportStatement :=
  { startLine := Text.lineOf starts found.inkOffset
    endLine := Text.lineOf starts (((found.capture? 3).map (·.start.offset)).getD 0)
    specifier := String.ofList (found.part 3)
    typeOnly := found.has 1
    clause, reexport, sideEffect }

/-- What a re-export binds: the whole module for a star, or the entries between the braces. -/
def reexportClause : List Char → ImportClause
  | '*' :: _ => { wholeModule := some "*" }
  | text => ImportClause.parse text

/-- All statements of a source text by the lines of their keywords; of one line, imports stand
before side-effect imports and these before re-exports. -/
def parseAll (text : List Char) : List ImportStatement :=
  let starts := Text.lineStarts text
  let imports := (importFrom.allMatches text).map fun found =>
    ofMatch starts found (ImportClause.parse (found.part 2)) false false
  let effects := (importOnly.allMatches text).map fun found => ofMatch starts found {} false true
  let reexports := (exportFrom.allMatches text).map fun found =>
    ofMatch starts found (reexportClause (found.part 2)) true false
  Ascending.sortByKey (·.startLine) (imports ++ effects ++ reexports)

/-- The statements of the file at `containing` whose specifier stands for `target`. -/
def targeting (graph : DependencyGraph) (resolver : ImportResolver) (text : List Char)
    (containing : String) (target : NodeId) : List ImportStatement :=
  (parseAll text).filter fun statement =>
    resolver.resolve? graph statement.specifier containing == some target

def allRefs (text : List Char) : List ImportRef :=
  (parseAll text).flatMap refs

end ImportStatement

end ChangeImpact
