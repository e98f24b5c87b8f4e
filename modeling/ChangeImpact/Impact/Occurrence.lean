import ChangeImpact.Pattern.Search
import ChangeImpact.Text.Cut

/-!
# Occurrences of a name in a line

A name occurs as a whole identifier where no character that continues an identifier touches it.
Finding an occurrence asks for word characters and `$`, replacing one asks for letters, numbers, `_`
and `$`.
-/

namespace ChangeImpact.Occurrence

def notNameChar : Pattern :=
  .one fun c => !Text.isNameChar c

/-- The name, between the ends of the line or characters that continue no name. -/
def pattern (name : String) : Pattern :=
  .all [.alt (.anchor .textStart) notNameChar, .lit name, .alt notNameChar (.anchor .textEnd)]

def occurs (name : String) (line : List Char) : Bool :=
  (pattern name).occursIn line

/-- Copies a line with the occurrences of `old` replaced by `new`. Occurrences are looked for from
left to right and none overlaps the one before; `last` is the character before the rest of the line,
and `skip` characters of the rest belong to an occurrence already copied. -/
def replaceAux (old new : List Char) (last : Option Char) (skip : Nat) : List Char → List Char
  | [] => []
  | c :: rest =>
    if 0 < skip then replaceAux old new (some c) (skip - 1) rest
    else
      match Text.dropWord? old (c :: rest) with
      | none => c :: replaceAux old new (some c) 0 rest
      | some after =>
        let inside := last.any Text.isIdentifierChar || after.head?.any Text.isIdentifierChar
        let copied := if inside then old else new
        copied ++ replaceAux old new (some c) (old.length - 1) rest

/-- The line with every occurrence of a name replaced; an empty name has none. -/
def replace (old new : String) (line : List Char) : List Char :=
  if old == "" then line else replaceAux old.toList new.toList none 0 line

end ChangeImpact.Occurrence
