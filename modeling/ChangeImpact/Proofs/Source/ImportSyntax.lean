import ChangeImpact.Source.Import

/-!
# Import statements as they are written

The syntax of import statements and re-exports, how one is printed, and what is to be read from it.
A name is an identifier of ASCII that is no word of the statements themselves, and a specifier has
no quote and no line feed in it.
-/

namespace ChangeImpact

namespace ImportSyntax

/-- Letters and digits of ASCII, `_` and `$`. -/
def isPlain (c : Char) : Bool :=
  Text.isAsciiLetter c || Text.isAsciiDigit c || c == '_' || c == '$'

def isIdentifier : List Char → Bool
  | [] => false
  | c :: rest => Text.isNameStart c && rest.all isPlain

/-- The words of the statements themselves. -/
def reserved : List String :=
  ["import", "export", "type", "as", "from"]

structure Name where
  text : String
  isIdentifier : isIdentifier text.toList = true
  free : text ∉ reserved

namespace Name

def chars (name : Name) : List Char :=
  name.text.toList

end Name

def typePrefix (typeOnly : Bool) : List Char :=
  if typeOnly then "type ".toList else []

structure Entry where
  name : Name
  asName : Option Name
  typeOnly : Bool

namespace Entry

def tail (entry : Entry) : List Char :=
  match entry.asName with
  | none => []
  | some asName => " as ".toList ++ asName.chars

def chars (entry : Entry) : List Char :=
  typePrefix entry.typeOnly ++ (entry.name.chars ++ entry.tail)

def named (entry : Entry) : NamedImport :=
  ⟨entry.name.text, entry.asName.map (·.text), entry.typeOnly⟩

end Entry

/-- How the entries between braces are laid out: on one line, or one per line, indented by some
blanks and each with a comma behind it. -/
inductive Layout where
  | oneLine
  | perLine (indent : Nat)
  deriving DecidableEq, Repr

structure Braces where
  first : Entry
  more : List Entry
  layout : Layout

namespace Braces

def entries (braces : Braces) : List Entry :=
  braces.first :: braces.more

def inner (braces : Braces) : List Char :=
  match braces.layout with
  | .oneLine =>
    ' ' :: (braces.first.chars ++ braces.more.flatMap (fun entry => ", ".toList ++ entry.chars)) ++
      [' ']
  | .perLine indent =>
    braces.entries.flatMap
      (fun entry => '\n' :: (List.replicate indent ' ' ++ entry.chars ++ [','])) ++ ['\n']

def chars (braces : Braces) : List Char :=
  '{' :: (braces.inner ++ ['}'])

def named (braces : Braces) : List NamedImport :=
  braces.entries.map (·.named)

end Braces

/-- What stands beside a default name: a name for the whole module, or entries between braces. -/
inductive Binding where
  | wholeModule (name : Name)
  | named (braces : Braces)

def Binding.chars : Binding → List Char
  | wholeModule name => "* as ".toList ++ name.chars
  | named braces => braces.chars

theorem Binding.chars_wholeModule (name : Name) :
    (wholeModule name).chars = "* as ".toList ++ name.chars := rfl

theorem Binding.chars_named (braces : Braces) : (named braces).chars = braces.chars := rfl

inductive Clause where
  | default (name : Name)
  | only (binding : Binding)
  | both (name : Name) (binding : Binding)

namespace Clause

def chars : Clause → List Char
  | default name => name.chars
  | only binding => binding.chars
  | both name binding => name.chars ++ ", ".toList ++ binding.chars

def bindWith (default : Option String) : Binding → ImportClause
  | .wholeModule name => { default, wholeModule := some name.text }
  | .named braces => { default, named := braces.named }

def bound : Clause → ImportClause
  | default name => { default := some name.text }
  | only binding => bindWith none binding
  | both name binding => bindWith (some name.text) binding

end Clause

structure Specifier where
  text : String
  openQuote : Char
  closeQuote : Char
  nonempty : text ≠ ""
  clean : ∀ c ∈ text.toList, ImportStatement.isQuote c = false ∧ c ≠ '\n'
  quotes : ImportStatement.isQuote openQuote = true ∧ ImportStatement.isQuote closeQuote = true

def Specifier.chars (specifier : Specifier) : List Char :=
  specifier.openQuote :: (specifier.text.toList ++ [specifier.closeQuote])

inductive Statement where
  | importFrom (typeOnly : Bool) (clause : Clause) (specifier : Specifier)
  | importOnly (specifier : Specifier)
  | exportFrom (typeOnly : Bool) (braces : Braces) (specifier : Specifier)
  | exportAll (typeOnly : Bool) (specifier : Specifier)

namespace Statement

def opening : Statement → List Char
  | importFrom typeOnly clause _ =>
    "import ".toList ++ typePrefix typeOnly ++ clause.chars ++ " from ".toList
  | importOnly _ => "import ".toList
  | exportFrom typeOnly braces _ =>
    "export ".toList ++ typePrefix typeOnly ++ braces.chars ++ " from ".toList
  | exportAll typeOnly _ => "export ".toList ++ typePrefix typeOnly ++ "* from ".toList

theorem opening_importFrom (typeOnly : Bool) (clause : Clause) (specifier : Specifier) :
    (importFrom typeOnly clause specifier).opening =
      "import ".toList ++ typePrefix typeOnly ++ clause.chars ++ " from ".toList := rfl

theorem opening_importOnly (specifier : Specifier) :
    (importOnly specifier).opening = "import ".toList := rfl

theorem opening_exportFrom (typeOnly : Bool) (braces : Braces) (specifier : Specifier) :
    (exportFrom typeOnly braces specifier).opening =
      "export ".toList ++ typePrefix typeOnly ++ braces.chars ++ " from ".toList := rfl

theorem opening_exportAll (typeOnly : Bool) (specifier : Specifier) :
    (exportAll typeOnly specifier).opening =
      "export ".toList ++ typePrefix typeOnly ++ "* from ".toList := rfl

def specifier : Statement → Specifier
  | importFrom _ _ specifier => specifier
  | importOnly specifier => specifier
  | exportFrom _ _ specifier => specifier
  | exportAll _ specifier => specifier

/-- The text of a statement, with the line feed that ends it. -/
def chars (statement : Statement) : List Char :=
  statement.opening ++ statement.specifier.chars ++ ";\n".toList

/-- What is read from a statement that begins on a line: it ends on the line of its specifier. -/
def read (line : Nat) (statement : Statement) : ImportStatement :=
  let endLine := line + statement.opening.count '\n'
  match statement with
  | importFrom typeOnly clause specifier =>
    ⟨line, endLine, specifier.text, typeOnly, clause.bound, false, false⟩
  | importOnly specifier => ⟨line, endLine, specifier.text, false, {}, false, true⟩
  | exportFrom typeOnly braces specifier =>
    ⟨line, endLine, specifier.text, typeOnly, { named := braces.named }, true, false⟩
  | exportAll typeOnly specifier =>
    ⟨line, endLine, specifier.text, typeOnly, { wholeModule := some "*" }, true, false⟩

/-- What is read from statements one after another, the first of which begins on a line. -/
def readAll (line : Nat) : List Statement → List ImportStatement
  | [] => []
  | statement :: rest =>
    statement.read line :: readAll (line + statement.chars.count '\n') rest

end Statement

end ImportSyntax

end ChangeImpact
