import ChangeImpact.Source.Export
import ChangeImpact.Text.Block

/-!
# Declarations in source text

The patterns by which declarations, markup, hooks and branches are recognised, and the members of a
declaration's block.
-/

namespace ChangeImpact.Declaration

open Pattern

/-- A declaration at the beginning of a line: optional words, a keyword, and the name as part 1. -/
def named (modifiers : List String) (keyword : String) : Pattern :=
  all [indentedLine, all (modifiers.map ExportRef.modifier), lit keyword, blanks1,
    group 1 identifier]

def classDecl : Pattern :=
  named ["export", "default", "abstract"] "class"

def enumDecl : Pattern :=
  all [named ["export", "declare", "const"] "enum", blanks, char '{']

def interfaceDecl : Pattern :=
  named ["export", "declare"] "interface"

def typeDecl : Pattern :=
  all [named ["export", "declare"] "type", blanks,
    opt (all [char '<', many (· != '='), char '>']), blanks, char '=']

/-- An element returned: `return`, an optional parenthesis, and the beginning of markup. -/
def renderReturn : Pattern :=
  all [lit "return", blanks, opt (char '('), blanks, char '<',
    one fun c => Text.isAsciiLetter c || c == '>']

def markup : Pattern :=
  alt (all [lit "</", one Text.isAsciiLetter]) (lit "/>")

def createContext : Pattern :=
  all [wordBoundary, lit "createContext", blanks, one fun c => c == '<' || c == '(']

/-- A type annotation up to an equals sign, or nothing. -/
def annotation : Pattern :=
  opt (all [char ':', many1 (· != '=')])

/-- A variable bound to a new context; its name is part 1. -/
def contextBinding : Pattern :=
  all [anyLit ["const", "let", "var"], blanks1, group 1 identifier, blanks, annotation, char '=',
    blanks, opt (lit "React."), lit "createContext", wordBoundary]

/-- An exported function, or an exported constant that is an arrow function. -/
def exportedFunction : Pattern :=
  alt
    (all [ExportRef.exportKeyword, ExportRef.modifier "default", ExportRef.modifier "async",
      lit "function", wordBoundary])
    (all [ExportRef.exportKeyword, lit "const", blanks1, identifier, blanks, annotation, char '=',
      blanks, ExportRef.modifier "async",
      alt (all [char '(', many (· != ')'), char ')']) identifier, blanks, annotation, lit "=>"])

def exportedConst : Pattern :=
  all [ExportRef.exportKeyword, lit "const", blanks1]

def apiHandler : Pattern :=
  all [ExportRef.exportKeyword, ExportRef.modifier "async",
    alt (all [lit "function", blanks1]) (all [lit "const", blanks1]),
    group 1 (anyLit (HttpMethod.all.map HttpMethod.name)), wordBoundary]

def hookCall : Pattern :=
  all [wordBoundary, group 1 (all [lit "use", one Text.isAsciiUpper, many Text.isNameChar]), blanks,
    opt (all [char '<', many (· != '>'), char '>']), char '(']

def branch : Pattern :=
  any [all [wordBoundary, anyLit ["if", "for", "while", "case", "catch"], wordBoundary],
    lit "&&", lit "||", lit "??", all [one Text.isBlank, char '?', one Text.isBlank]]

def modifiers (words : List String) : Pattern :=
  repeated (all [anyLit words, blanks1])

/-- A property: its name is part 1, a question mark part 2, and its type part 3. -/
def property : Pattern :=
  all [ExportRef.modifier "readonly", group 1 identifier, opt (group 2 (char '?')), blanks,
    char ':', blanks, group 3 (many1 fun _ => true), anchor .textEnd]

/-- A field of a class: its name is part 1, a mark part 2, and its type part 3, without the value
that the field begins with. -/
def classField : Pattern :=
  all [modifiers ["public", "private", "protected", "readonly", "static", "declare"],
    group 1 identifier, opt (group 2 (one fun c => c == '?' || c == '!')), blanks, char ':', blanks,
    group 3 (few1 fun _ => true),
    opt (all [blanks, char '=', one (· != '>'), many fun _ => true]), anchor .textEnd]

def classMethod : Pattern :=
  all [modifiers ["public", "private", "protected", "static", "async", "get", "set", "override"],
    group 1 identifier, blanks, opt (all [char '<', many (· != '>'), char '>']), blanks, char '(']

/-- A member of an enumeration: a name, or a text in quotes. -/
def enumMember : Pattern :=
  any [group 1 identifier,
    all [char '\'', group 1 (many (· != '\'')), char '\''],
    all [char '"', group 1 (many (· != '"')), char '"']]

/-- Names before a parenthesis that make no method. -/
def notMethods : List String :=
  ["constructor", "if", "for", "while", "switch", "catch", "return", "super"]

def nameOf (found : Match) : String :=
  String.ofList (found.part 1)

/-- The first match of a declaration whose name is `name`, or else its first match. -/
def findNamed? (pattern : Pattern) (name : String) (text : List Char) : Option Match :=
  let found := pattern.allMatches text
  (found.find? (nameOf · == name)).or found.head?

/-- The body of the interface or object type called `name`, or else of the first one, among the
declarations whose names are admitted. -/
def shapeBody? (name : String) (text : List Char) (admitted : String → Bool) : Option (List Char) :=
  let found := (interfaceDecl.allMatches text ++ typeDecl.allMatches text).filter
    fun decl => admitted (nameOf decl)
  let sorted := Ascending.sortByKey (·.stop.offset) found
  let decl? := (sorted.find? (nameOf · == name)).or sorted.head?
  decl?.bind fun decl => Text.firstBlock decl.stop.rest

def properties (body : List Char) : List FieldDef :=
  (Text.members body).filterMap fun member =>
    (property.matchFront? member).map fun found =>
      ⟨nameOf found, String.ofList (Text.trimChars (found.part 3)), found.has 2⟩

def shapeFields (name : String) (text : List Char) : List FieldDef :=
  ((shapeBody? name text fun _ => true).map properties).getD []

def endsWithProps (name : String) : Bool :=
  Text.startsWithWord "sporP".toList name.toList.reverse

/-- The properties of a component: the fields of the type called after it with `Props`. -/
def componentProps (name : String) (text : List Char) : List FieldDef :=
  ((shapeBody? (name ++ "Props") text endsWithProps).map properties).getD []

def classBody? (name : String) (text : List Char) : Option (List Char) :=
  (findNamed? classDecl name text).bind fun decl =>
    (Text.cutAt? (· == '{') decl.stop.rest).bind fun (_, rest) => Text.blockAfterBrace rest

inductive ClassMember where
  | method (name : String)
  | field (declared : FieldDef)
  deriving DecidableEq, Repr

def classMember? (member : List Char) : Option ClassMember :=
  match classMethod.matchFront? member with
  | some found => if notMethods.contains (nameOf found) then none else some (.method (nameOf found))
  | none =>
    (classField.matchFront? member).map fun found =>
      .field ⟨nameOf found, String.ofList (Text.trimChars (found.part 3)), found.part 2 == ['?']⟩

def ClassMember.method? : ClassMember → Option String
  | method name => some name
  | field _ => none

def ClassMember.field? : ClassMember → Option FieldDef
  | method _ => none
  | field declared => some declared

def classMembers (name : String) (text : List Char) : List ClassMember :=
  match classBody? name text with
  | some body => (Text.members body).filterMap classMember?
  | none => []

def enumMembers (name : String) (text : List Char) : List String :=
  match (findNamed? enumDecl name text).bind fun decl => Text.blockAfterBrace decl.stop.rest with
  | some body =>
    (Text.members body).filterMap fun member => (enumMember.matchFront? member).map nameOf
  | none => []

/-- The hooks a hook calls, in order, each once and without itself. -/
def calledHooks (name : String) (text : List Char) : List String :=
  ((hookCall.allMatches text).map nameOf).foldl
    (fun hooks hook => if hook == name || hooks.contains hook then hooks else hooks ++ [hook]) []

end ChangeImpact.Declaration
