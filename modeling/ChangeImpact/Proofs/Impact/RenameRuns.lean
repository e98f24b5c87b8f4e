import ChangeImpact.Proofs.Impact.Rename
import ChangeImpact.Proofs.Text.Runs

/-!
# Renaming run by run

The runs of a line are its longest stretches of identifier characters and the texts between them.
Replacing a name goes over the runs one by one: a run that is the name becomes the new name, and all
else is kept. So a name that is none of the runs can take the place of another one and give it back.
-/

namespace ChangeImpact.Occurrence

open Text (IsWordOf runs swap)

variable {old new : String}

theorem replace_eq_map_swap (isOld : IsWordOf Text.isIdentifierChar old.toList) (new : String)
    (line : List Char) : replace old new line =
      ((runs Text.isIdentifierChar line).map (swap old.toList new.toList)).flatten :=
  (Text.rewrites_iff isOld).mp (rewrites_replace_word isOld new line)

/-- Replacing a name changes the runs that are the name and nothing else, and with a name that is
not among the runs it can be taken back. -/
theorem replace_maps_runs (isOld : IsWordOf Text.isIdentifierChar old.toList) (line : List Char) :
    (∀ new : String, replace old new line =
      ((runs Text.isIdentifierChar line).map (swap old.toList new.toList)).flatten) ∧
    ∀ new : String, IsWordOf Text.isIdentifierChar new.toList →
      new.toList ∉ runs Text.isIdentifierChar line →
      replace new old (replace old new line) = line := by
  refine ⟨fun new => replace_eq_map_swap isOld new line, fun new isNew absent => ?_⟩
  obtain ⟨-, -, whole⟩ := Text.exists_alternates_runs Text.isIdentifierChar line
  rw [replace_eq_map_swap isNew, replace_eq_map_swap isOld, Text.runs_map_swap isOld isNew,
    Text.map_swap_map_swap absent, whole]

/-- The name overlaps itself in a longer one before it stands alone. -/
theorem replace_maps_runs_overlapping_name :
    let line := "aaa(aa, é.aa$) + aa".toList
    IsWordOf Text.isIdentifierChar "aa".toList ∧ IsWordOf Text.isIdentifierChar "$b".toList ∧
      "$b".toList ∉ runs Text.isIdentifierChar line ∧
      replace "aa" "$b" line = "aaa($b, é.aa$) + $b".toList ∧
      replace "$b" "aa" (replace "aa" "$b" line) = line := by
  intro line
  have isOld : IsWordOf Text.isIdentifierChar "aa".toList := ⟨by decide, by decide⟩
  have isNew : IsWordOf Text.isIdentifierChar "$b".toList := ⟨by decide, by decide⟩
  have absent : "$b".toList ∉ runs Text.isIdentifierChar line := by decide
  obtain ⟨maps, back⟩ := replace_maps_runs isOld line
  exact ⟨isOld, isNew, absent, (maps "$b").trans (by decide), back "$b" isNew absent⟩

end ChangeImpact.Occurrence
