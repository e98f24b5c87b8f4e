import ChangeImpact.Impact.Rule
import ChangeImpact.Proofs.Impact.FieldAccess
import ChangeImpact.Proofs.Source.ImportSyntax

/-!
# The ranges of the accesses

A line is searched for the accesses to a field with a pattern that ends at the end of a word. A name
goes on over a dollar sign where a word ends, so a name found may be the front of a longer one, and
one that ends in a dollar sign is not found. Away from dollar signs the ranges found are those of
the accesses whose name is a whole one.
-/

namespace ChangeImpact.FieldAccess

open ImportSyntax (isIdentifier)
open Text (IsWordOf)

def ranges (field : String) (line : List Char) : List (Nat × Nat) :=
  (find field line).map fun found => (found.start.offset, found.stop.offset)

/-- The byte ranges of the accesses of a line with an accepted character behind them, from left to
right. -/
structure AreAccesses (name : List Char) (accepts : Option Char → Prop) (line : List Char)
    (ranges : List (Nat × Nat)) : Prop where
  ascending : ranges.Pairwise fun first second => first.2 ≤ second.1
  mem_iff : ∀ range, range ∈ ranges ↔ ∃ before read after, line = before ++ (read ++ after) ∧
    IsAccess name before.getLast? read ∧ accepts after.head? ∧
    range = (Text.byteLength before, Text.byteLength (before ++ read))

/-- No character that continues a name stands behind an access. -/
def EndsName (next : Option Char) : Prop :=
  next.any Text.isNameChar = false

variable {field : String} {name read line before after : List Char} {accepts : Option Char → Prop}

theorem areAccesses_ranges (isField : IsWordOf Text.isNameChar field.toList) (line : List Char) :
    AreAccesses field.toList (fun next => endsWord field.toList next = true) line
      (ranges field line) := by
  refine ⟨?_, fun range => ?_⟩
  · refine List.pairwise_map.mpr (List.Pairwise.filter _ ?_)
    exact Pattern.pairwise_matchesFrom _ _ _ _ _
  · have found := @(scans_find isField line).mem_iff _ _ _ _ _ (unmarked_of_isWordOf isField)
    simp only [ranges, List.mem_map, found]
    constructor
    · rintro ⟨_, ⟨before, read, after, split, access, ends, rfl⟩, rfl⟩
      rw [Option.or_none] at access
      exact ⟨before, read, after, split, access, ends, by simp [Cursor.past]⟩
    · rintro ⟨before, read, after, split, access, ends, rfl⟩
      rw [← Option.or_none (o := before.getLast?)] at access
      exact ⟨_, ⟨before, read, after, split, access, ends, rfl⟩, by simp [Cursor.past]⟩

theorem AreAccesses.mem_iff_accepts {ranges : List (Nat × Nat)}
    (are : AreAccesses name accepts line ranges) (split : line = before ++ (read ++ after))
    (access : IsAccess name before.getLast? read) :
    (Text.byteLength before, Text.byteLength (before ++ read)) ∈ ranges ↔ accepts after.head? := by
  rw [are.mem_iff]
  constructor
  · rintro ⟨before', read', after', split', -, accepted, same⟩
    have rest := Text.dropBytes?_byteLength (before ++ read) after
    have rest' := Text.dropBytes?_byteLength (before' ++ read') after'
    rw [List.append_assoc, ← split, (Prod.mk.inj same).2] at rest
    rw [List.append_assoc, ← split', rest] at rest'
    exact Option.some.inj rest' ▸ accepted
  · exact fun accepted => ⟨before, read, after, split, access, accepted, rfl⟩

theorem AreAccesses.congr {accepts' : Option Char → Prop} {ranges : List (Nat × Nat)}
    (are : AreAccesses name accepts line ranges)
    (agree : ∀ before read after, line = before ++ (read ++ after) →
      IsAccess name before.getLast? read → (accepts after.head? ↔ accepts' after.head?)) :
    AreAccesses name accepts' line ranges := by
  refine ⟨are.ascending, fun range => (are.mem_iff range).trans ?_⟩
  constructor
  · rintro ⟨before, read, after, split, access, accepted, rfl⟩
    exact ⟨before, read, after, split, access, (agree _ _ _ split access).mp accepted, rfl⟩
  · rintro ⟨before, read, after, split, access, accepted, rfl⟩
    exact ⟨before, read, after, split, access, (agree _ _ _ split access).mpr accepted, rfl⟩

theorem isWord_eq_of_isNameChar {c : Char} (continues : Text.isNameChar c = true) :
    Text.isWord c = decide (c ≠ '$') := by
  by_cases dollar : c = '$'
  · subst dollar
    decide
  · have word : Text.isWord c = true := by simpa [Text.isNameChar, dollar] using continues
    rw [word, decide_eq_true dollar]

/-- The end of a word is the end of a name unless a dollar sign is on one side of it alone. -/
theorem endsWord_iff_endsName {name : List Char} (isName : IsWordOf Text.isNameChar name)
    (next : Option Char) : (endsWord name next = true ↔ EndsName next) ↔
      (next = some '$' ↔ name.getLast? = some '$') := by
  have last := List.getLast?_eq_some_getLast isName.nonempty
  have kind := isWord_eq_of_isNameChar (isName.letters _ (List.getLast_mem isName.nonempty))
  generalize name.getLast isName.nonempty = c at last kind
  cases next with
  | none => simp [endsWord, EndsName, last, kind]
  | some d =>
    by_cases continues : Text.isNameChar d = true
    · have kind' := isWord_eq_of_isNameChar continues
      have dollar : Text.isNameChar '$' = true ∧ Text.isWord '$' = false := by decide
      by_cases one : c = '$' <;> by_cases other : d = '$' <;>
        simp [endsWord, EndsName, last, continues, kind, kind', one, other, dollar]
    · have other : d ≠ '$' := by
        rintro rfl
        exact continues (by decide)
      have bare : Text.isWord d = false := by simpa [Text.isNameChar, other] using continues
      simp [endsWord, EndsName, last, continues, kind, bare, other]

/-- The accesses found are the whole names exactly if behind each access of the line a dollar sign
stands just when the name of the field ends in one, as it is where neither has any. In any case the
accesses found are those with the end of a word behind them. -/
theorem areAccesses_endsName_iff (isField : IsWordOf Text.isNameChar field.toList)
    (line : List Char) :
    (AreAccesses field.toList EndsName line (ranges field line) ↔
      ∀ before read after, line = before ++ (read ++ after) →
        IsAccess field.toList before.getLast? read →
        (after.head? = some '$' ↔ field.toList.getLast? = some '$')) ∧
      ('$' ∉ line → '$' ∉ field.toList →
        AreAccesses field.toList EndsName line (ranges field line)) ∧
      AreAccesses field.toList (fun next => endsWord field.toList next = true) line
        (ranges field line) := by
  have are := areAccesses_ranges isField line
  have whole : (∀ before read after, line = before ++ (read ++ after) →
      IsAccess field.toList before.getLast? read →
      (after.head? = some '$' ↔ field.toList.getLast? = some '$')) →
      AreAccesses field.toList EndsName line (ranges field line) := fun alike =>
    are.congr fun before read after split access =>
      (endsWord_iff_endsName isField _).mpr (alike before read after split access)
  refine ⟨⟨fun names before read after split access => ?_, whole⟩, fun bare bare' => whole ?_, are⟩
  · rw [← endsWord_iff_endsName isField, ← are.mem_iff_accepts split access,
      names.mem_iff_accepts split access]
  · rintro before read after rfl -
    refine iff_of_false (fun first => bare ?_) fun last => bare' (List.mem_of_getLast? last)
    exact List.mem_append_right _ (List.mem_append_right _ (List.mem_of_head? first))

/-- Two accesses beside a longer name and a spread. -/
theorem areAccesses_endsName_iff_two_reads :
    let line := "show(user.name, other?.name, user.nameplate, ...name);".toList
    IsWordOf Text.isNameChar "name".toList ∧ '$' ∉ line ∧ '$' ∉ "name".toList ∧
      AreAccesses "name".toList EndsName line (ranges "name" line) ∧
      ranges "name" line = [(9, 14), (21, 27)] := by
  intro line
  have isField : IsWordOf Text.isNameChar "name".toList := ⟨by decide, by decide⟩
  obtain ⟨-, bare, -⟩ := areAccesses_endsName_iff isField line
  have plain : '$' ∉ line := by decide
  have plain' : '$' ∉ "name".toList := by decide
  exact ⟨isField, plain, plain', bare plain plain', by decide⟩

/-- A read of the longer name `name$` is taken for one of `name`. -/
theorem ranges_fail_before_dollar :
    ¬ ∀ (field : String) (line : List Char), isIdentifier field.toList = true →
      AreAccesses field.toList EndsName line (ranges field line) := by
  intro always
  have whole := always "name" "user.name$ = 1;".toList (by decide)
  have access : IsAccess "name".toList "user".toList.getLast? ".name".toList :=
    .dot (by decide) (by decide)
  have split : "user.name$ = 1;".toList = "user".toList ++ (".name".toList ++ "$ = 1;".toList) := by
    decide
  have found : (4, 9) ∈ ranges "name" "user.name$ = 1;".toList := by decide
  exact absurd ((whole.mem_iff_accepts split access).mp found) (by unfold EndsName; decide)

end ChangeImpact.FieldAccess
