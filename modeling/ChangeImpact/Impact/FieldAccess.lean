import ChangeImpact.Pattern.Search

/-!
# Accesses to a field

An access is a dot, with or without a question mark before it, and the field's name up to the end of
a word. A dot right before it makes it a part of a spread, and no access.
-/

namespace ChangeImpact.FieldAccess

def pattern (field : String) : Pattern :=
  .all [.opt (.char '?'), .char '.', .lit field, .wordBoundary]

/-- A field named between two braces before an equals sign or a colon. -/
def destructuring (field : String) : Pattern :=
  let inside := Pattern.many fun c => !(c == '{' || c == '}')
  .all [.char '{', inside, .wordBoundary, .lit field, .wordBoundary, inside, .char '}', .blanks,
    .one fun c => c == '=' || c == ':']

def find (field : String) (line : List Char) : List Match :=
  ((pattern field).allMatches line).filter fun found => found.start.before != some '.'

/-- The text from a place on without the given matches. -/
def without (place : Cursor) : List Match → List Char
  | [] => place.rest
  | found :: later => place.textTo found.start ++ without found.stop later

/-- The line without its accesses, if it has any. -/
def strip? (field : String) (line : List Char) : Option (List Char) :=
  match find field line with
  | [] => none
  | found => some (without ⟨none, line, 0⟩ found)

end ChangeImpact.FieldAccess
