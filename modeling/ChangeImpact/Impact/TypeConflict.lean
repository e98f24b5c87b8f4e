import ChangeImpact.Pattern.Search
import ChangeImpact.Text.Blank

/-!
# Conflicts of a changed type

A line that uses a field conflicts with the change of its type if a union is involved, or if a
number and a text change places and the line does something that is done with numbers or with texts.
-/

namespace ChangeImpact.TypeConflict

open Pattern

/-- What is done with numbers: arithmetic, comparison with a digit, and numeric functions. -/
def numericIdiom : Pattern :=
  any [lit ".toFixed(",
    all [wordBoundary, lit "Math.", many1 Text.isWord, char '('],
    all [wordBoundary, anyLit ["parseInt", "parseFloat", "Number", "isNaN"], char '('],
    all [one fun c => c == '-' || c == '+' || c == '*' || c == '/' || c == '%', char '='],
    lit "++", lit "--",
    all [one Text.isBlank, one fun c => c == '-' || c == '*' || c == '/' || c == '%',
      one Text.isBlank],
    all [one Text.isBlank, one fun c => c == '<' || c == '>', opt (char '='), blanks,
      one Text.isDecimalDigit]]

/-- What is done with texts: calls of text functions, and templates. -/
def textIdiom : Pattern :=
  alt
    (all [char '.',
      anyLit ["toUpperCase", "toLowerCase", "trim", "trimStart", "trimEnd", "split", "substring",
        "substr", "startsWith", "endsWith", "padStart", "padEnd", "charAt", "localeCompare",
        "replace", "replaceAll"],
      char '('])
    (lit "`")

def isUnion (typeName : String) : Bool :=
  typeName.toList.contains '|'

def swapsNumberAndText (before after : String) : Bool :=
  (Text.trim before == "number" && Text.trim after == "string") ||
    (Text.trim before == "string" && Text.trim after == "number")

def breaks (line : List Char) (before after : String) : Bool :=
  isUnion before || isUnion after ||
    (swapsNumberAndText before after && (numericIdiom.occursIn line || textIdiom.occursIn line))

end ChangeImpact.TypeConflict
