import ChangeImpact.Node
import ChangeImpact.Proofs.Source.ImportSyntax
import ChangeImpact.Proofs.Text.Endings
import ChangeImpact.Proofs.Text.Members

/-!
# Interfaces as they are written

The syntax of an interface with one field on each line, how it is printed, and what is to be read
from it. The type of a field may be any text of one line whose brackets are paired and whose generic
arguments are closed, if its semicolons and commas stand inside of these. Brackets are told by their
characters alone, in a quoted text too.
-/

namespace ChangeImpact

namespace InterfaceSyntax

/-- A type that a field may be declared with. A generic argument is one that opens right behind a
letter or digit. -/
structure IsTypeText (text : List Char) : Prop where
  nonempty : text ≠ []
  trimmed : Text.IsTrimmed text
  noFeed : '\n' ∉ text
  paired : ∀ pair ∈ Text.brackets, Text.Paired pair.1 pair.2 text
  closed : Text.AllClosed (Text.angles ' ' text)
  inside : ∀ i (h : i < text.length), text[i] = ';' ∨ text[i] = ',' →
    Text.LeavesOpen (text.take i)

structure Field where
  name : String
  optional : Bool
  typeName : String
  isIdentifier : ImportSyntax.isIdentifier name.toList = true
  isType : IsTypeText typeName.toList

namespace Field

variable (field : Field)

def mark : List Char :=
  if field.optional then ['?'] else []

def front : List Char :=
  field.name.toList ++ (field.mark ++ ": ".toList)

def chars : List Char :=
  field.front ++ field.typeName.toList

def read : FieldDef :=
  ⟨field.name, field.typeName, field.optional⟩

end Field

/-- An exported interface whose fields are each on a line of their own, indented by some blanks. A
line feed may stand behind the closing brace. -/
structure Interface where
  name : String
  fields : List Field
  indent : Nat
  feedAtEnd : Bool
  isIdentifier : ImportSyntax.isIdentifier name.toList = true

namespace Interface

variable (interface : Interface)

def line (field : Field) : List Char :=
  List.replicate interface.indent ' ' ++ (field.chars ++ [';'])

def header : List Char :=
  "export".toList ++ ' ' :: ("interface".toList ++ ' ' :: (interface.name.toList ++ [' ', '{']))

def closing : List Char :=
  '}' :: if interface.feedAtEnd then ['\n'] else []

def body : List Char :=
  '\n' :: Text.withFeeds (interface.fields.map interface.line) []

def chars : List Char :=
  Text.withFeeds (interface.header :: interface.fields.map interface.line) interface.closing

end Interface

end InterfaceSyntax

end ChangeImpact
