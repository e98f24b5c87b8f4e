import ChangeImpact.Proofs.Patch.Edit

/-!
# Where a patch lands

A replacement or a deletion is made at the nearest line that has its old text, the upper one of two
as near, if that line lies within the drift window. Otherwise nothing is changed, and the error says
whether the window reaches the file at all.
-/

namespace ChangeImpact

def linesApart (a b : Nat) : Nat :=
  (a - b) + (b - a)

theorem linesApart_eq_iff {a b distance : Nat} :
    linesApart a b = distance ↔ distance ≤ a ∧ b = a - distance ∨ b = a + distance := by
  unfold linesApart
  omega

theorem linesApart_le_iff {a b window : Nat} :
    linesApart a b ≤ window ↔ a ≤ b + window ∧ b ≤ a + window := by
  unfold linesApart
  omega

namespace Document

/-- Whether the line at an index is a given text, blanks around both left out. -/
def HasText (doc : Document) (expected : String) (index : Nat) : Prop :=
  ∃ text, doc.lines[index]? = some text ∧ Text.trim text = Text.trim expected

/-- The line at `found` has the text, no line that has it is nearer to `index`, and none that is as
near stands above it. -/
structure Nearest (doc : Document) (index : Nat) (expected : String) (found : Nat) : Prop where
  has : doc.HasText expected found
  least : ∀ i, doc.HasText expected i → linesApart index found ≤ linesApart index i
  upper : ∀ i, doc.HasText expected i → linesApart index i = linesApart index found → found ≤ i

/-- Some line within the drift window has the old text of a patch. -/
def Placeable (doc : Document) (window : Nat) (patch : Patch) : Prop :=
  1 ≤ patch.line ∧
    ∃ i, doc.HasText patch.oldCode i ∧ linesApart (patch.line - 1) i ≤ window

/-! ## The nearest line -/

variable {doc : Document} {index found : Nat} {expected : String} {window : Nat}

theorem hasText_iff :
    doc.HasText expected index ↔ doc.matchesAt (Text.trim expected) index = true :=
  matchesAt_iff.symm

theorem HasText.lt_length (has : doc.HasText expected index) : index < doc.lines.length := by
  obtain ⟨text, line, -⟩ := has
  exact (List.getElem?_eq_some_iff.mp line).1

theorem Nearest.unique {other : Nat} (one : doc.Nearest index expected found)
    (two : doc.Nearest index expected other) : found = other := by
  have apart : linesApart index found = linesApart index other :=
    Nat.le_antisymm (one.least other two.has) (two.least found one.has)
  exact Nat.le_antisymm (one.upper other two.has apart.symm) (two.upper found one.has apart)

/-- What the search outwards finds is the nearest line, if no line is nearer than where the search
begins. -/
theorem nearest_of_searchOutward {distance count : Nat}
    (h : doc.searchOutward index (Text.trim expected) distance count = some found)
    (none : ∀ i, doc.HasText expected i → distance ≤ linesApart index i) :
    doc.Nearest index expected found ∧ linesApart index found < distance + count := by
  induction count generalizing distance with
  | zero => simp [searchOutward] at h
  | succ count ih =>
    unfold searchOutward at h
    split at h
    · next above =>
      simp only [Bool.and_eq_true, decide_eq_true_eq, ← hasText_iff] at above
      obtain rfl := Option.some.inj h
      have apart := linesApart_eq_iff.mpr (.inl ⟨above.1, rfl⟩)
      refine ⟨⟨above.2, fun i has => ?_, fun i has same => ?_⟩, by omega⟩
      · exact apart.symm ▸ none i has
      · rcases linesApart_eq_iff.mp (same.trans apart) with ⟨-, rfl⟩ | rfl <;> omega
    · next notAbove =>
      simp only [Bool.and_eq_true, decide_eq_true_eq, not_and, ← hasText_iff] at notAbove
      split at h
      · next below =>
        rw [← hasText_iff] at below
        obtain rfl := Option.some.inj h
        have apart : linesApart index (index + distance) = distance :=
          linesApart_eq_iff.mpr (.inr rfl)
        refine ⟨⟨below, fun i has => ?_, fun i has same => ?_⟩, by omega⟩
        · exact apart.symm ▸ none i has
        · rcases linesApart_eq_iff.mp (same.trans apart) with ⟨reached, rfl⟩ | rfl
          · exact absurd has (notAbove reached)
          · exact Nat.le_refl _
      · next notBelow =>
        rw [← hasText_iff] at notBelow
        have further : ∀ i, doc.HasText expected i → distance + 1 ≤ linesApart index i := by
          intro i has
          refine Nat.lt_of_le_of_ne (none i has) fun same => ?_
          rcases linesApart_eq_iff.mp same.symm with ⟨reached, rfl⟩ | rfl
          · exact notAbove reached has
          · exact notBelow has
        obtain ⟨nearest, near⟩ := ih h further
        exact ⟨nearest, by omega⟩

theorem nearest_of_find? (h : doc.find? index expected window = some found) :
    doc.Nearest index expected found ∧ linesApart index found ≤ window := by
  rw [find?_eq] at h
  split at h
  · next here =>
    obtain rfl := Option.some.inj h
    have apart : linesApart index index = 0 := linesApart_eq_iff.mpr (.inr rfl)
    refine ⟨⟨hasText_iff.mpr here, fun i _ => by omega, fun i _ same => ?_⟩, by omega⟩
    rcases linesApart_eq_iff.mp (same.trans apart) with ⟨-, rfl⟩ | rfl <;> omega
  · next notHere =>
    rw [← hasText_iff] at notHere
    have off : ∀ i, doc.HasText expected i → 1 ≤ linesApart index i := by
      intro i has
      refine Nat.one_le_iff_ne_zero.mpr fun same => ?_
      rcases linesApart_eq_iff.mp same with ⟨-, rfl⟩ | rfl <;> exact notHere has
    obtain ⟨nearest, near⟩ := nearest_of_searchOutward h off
    exact ⟨nearest, by omega⟩

theorem exists_find?_iff : (∃ found, doc.find? index expected window = some found) ↔
    ∃ i, doc.HasText expected i ∧ linesApart index i ≤ window := by
  constructor
  · intro ⟨found, search⟩
    obtain ⟨nearest, near⟩ := nearest_of_find? search
    exact ⟨found, nearest.has, near⟩
  · intro ⟨i, ⟨text, line, same⟩, near⟩
    obtain ⟨above, below⟩ := linesApart_le_iff.mp near
    cases search : doc.find? index expected window with
    | none => exact absurd same (find?_eq_none_iff.mp search i text line above below)
    | some found => exact ⟨found, rfl⟩

/-- The search gives the nearest line with the text, if it lies within the window. -/
theorem find?_eq_some_iff : doc.find? index expected window = some found ↔
    doc.Nearest index expected found ∧ linesApart index found ≤ window := by
  refine ⟨nearest_of_find?, fun ⟨nearest, near⟩ => ?_⟩
  obtain ⟨other, search⟩ := exists_find?_iff.mpr ⟨found, nearest.has, near⟩
  rw [search, (nearest_of_find? search).1.unique nearest]

/-! ## Success and failure -/

variable {mode : EditMode} {patch : Patch}

/-- The window reaches the file wherever the search could have placed a patch. -/
theorem Placeable.line_le (placeable : doc.Placeable window patch) :
    patch.line ≤ doc.length + window := by
  obtain ⟨-, i, has, near⟩ := placeable
  have inside := has.lt_length
  have above := (linesApart_le_iff.mp near).1
  unfold length
  omega

theorem exists_edit_of_placeable (edits : patch.inserts mode = false)
    (placeable : doc.Placeable window patch) : ∃ made, doc.edit window mode patch = .ok made := by
  obtain ⟨numbered, place⟩ := placeable
  obtain ⟨found, search⟩ := exists_find?_iff.mpr place
  obtain ⟨current, line, -, -⟩ := matches_of_find? search
  exact ⟨_, edit_of_find? numbered edits search line⟩

def missed (doc : Document) (window : Nat) (patch : Patch) : PatchError :=
  if patch.line = 0 ∨ doc.length + window < patch.line then
    .lineOutOfRange patch.path patch.line doc.length
  else
    .drift patch.path patch.line (Text.trim patch.oldCode)
      (Text.trim ((doc.line? (patch.line - 1)).getD "")) window

theorem edit_of_not_placeable (edits : patch.inserts mode = false)
    (unplaceable : ¬ doc.Placeable window patch) :
    doc.edit window mode patch = .error (doc.missed window patch) := by
  unfold edit missed
  by_cases zero : patch.line = 0
  · simp [zero]
  by_cases beyond : doc.length + window < patch.line
  · have reached : doc.length + window ≤ patch.line - 1 := by omega
    simp [zero, edits, beyond, reached]
  · have reached : ¬ doc.length + window ≤ patch.line - 1 := by omega
    have nowhere : doc.find? (patch.line - 1) patch.oldCode window = none := by
      refine Option.eq_none_iff_forall_ne_some.mpr fun found search => ?_
      exact unplaceable ⟨by omega, exists_find?_iff.mp ⟨found, search⟩⟩
    simp [zero, edits, beyond, reached, nowhere]

/-! ## The edit as it is made -/

/-- A document and the record of a patch, as they are left by a replacement or a deletion of the
line at an index: the lines before it and behind it are as they were. -/
structure MadeAt (doc : Document) (mode : EditMode) (patch : Patch) (found : Nat)
    (next : Document) (done : Patch) : Prop where
  lines : ∃ front current rest, doc.lines = front ++ current :: rest ∧ front.length = found ∧
    done.oldCode = current ∧
    done.newCode = (if patch.isDeletion then "" else patch.replacement mode current) ∧
    next = { doc with lines := front ++ (if patch.isDeletion then [] else [done.newCode]) ++ rest }
  record : done = patch.asApplied (found + 1) done.oldCode done.newCode

theorem madeAt_amend {current : String} (line : doc.lines[found]? = some current) :
    doc.MadeAt mode patch found (doc.amend mode patch found current).1
      (doc.amend mode patch found current).2 := by
  obtain ⟨front, rest, split, length⟩ := exists_append_of_getElem? line
  unfold amend
  cases deletion : patch.isDeletion with
  | true =>
    refine ⟨⟨front, current, rest, split, length, rfl, ?_, ?_⟩, rfl⟩
    · simp [deletion, Patch.asApplied]
    · simp [deletion, split, ← length, List.eraseIdx_append_of_length_le]
  | false =>
    refine ⟨⟨front, current, rest, split, length, rfl, ?_, ?_⟩, rfl⟩
    · simp [deletion, Patch.asApplied]
    · simp [deletion, split, ← length, Patch.asApplied]

/-- A patch that inserts no line is made exactly if some line within the window has its old text,
and then at the nearest one. If there is none, the document stays as it is, and the line is out of
range if the window does not reach the file, and has drifted otherwise. -/
theorem edit_lands_nearest (doc : Document) (window : Nat) (mode : EditMode) (patch : Patch)
    (edits : patch.inserts mode = false) :
    ((∃ made, doc.edit window mode patch = .ok made) ↔ doc.Placeable window patch) ∧
    (doc.Placeable window patch → patch.line ≤ doc.length + window) ∧
    (∀ next done, doc.edit window mode patch = .ok (next, done) → ∃ found,
      doc.Nearest (patch.line - 1) patch.oldCode found ∧
      linesApart (patch.line - 1) found ≤ window ∧ doc.MadeAt mode patch found next done) ∧
    (¬ doc.Placeable window patch →
      doc.edit window mode patch = .error (doc.missed window patch) ∧
      ∀ run : EditRun, run.doc = doc → EditRun.step window mode run patch =
        { run with failed := run.failed ++ [(patch, doc.missed window patch)] }) := by
  refine ⟨⟨?_, exists_edit_of_placeable edits⟩, Placeable.line_le, ?_, ?_⟩
  · intro ⟨made, succeeds⟩
    refine Classical.byContradiction fun unplaceable => ?_
    rw [edit_of_not_placeable edits unplaceable] at succeeds
    cases succeeds
  · intro next done succeeds
    obtain ⟨-, ⟨inserts, -⟩ | ⟨found, current, -, search, line, made⟩⟩ := edit_cases succeeds
    · rw [edits] at inserts
      cases inserts
    · obtain ⟨nearest, near⟩ := nearest_of_find? search
      obtain ⟨rfl, rfl⟩ := Prod.mk.inj made
      exact ⟨found, nearest, near, madeAt_amend line⟩
  · intro unplaceable
    have failed := edit_of_not_placeable edits unplaceable
    refine ⟨failed, fun run same => ?_⟩
    rw [EditRun.step, same, failed]

/-- Two lines have the old text and are as near: the upper one is replaced. -/
theorem edit_lands_nearest_upper_of_two :
    let doc : Document := ⟨["  a", "b", "a", "c"], .lf, true⟩
    let patch : Patch := ⟨"p", "a.ts", 2, " a", "x", "", true, none, none⟩
    patch.inserts .apply = false ∧ ∃ next done, doc.edit 1 .apply patch = .ok (next, done) ∧
      doc.Nearest 1 " a" 0 ∧ doc.MadeAt .apply patch 0 next done := by
  intro doc patch
  have edits : patch.inserts .apply = false := by decide
  obtain ⟨⟨-, succeeds⟩, -, lands, -⟩ := edit_lands_nearest doc 1 .apply patch edits
  have has : doc.HasText " a" 0 := ⟨"  a", rfl, by decide⟩
  obtain ⟨⟨next, done⟩, made⟩ := succeeds ⟨by decide, 0, has, by decide⟩
  obtain ⟨found, nearest, near, madeAt⟩ := lands next done made
  have search := find?_eq_some_iff.mpr ⟨nearest, near⟩
  have first : doc.find? 1 " a" 1 = some 0 := by decide
  obtain rfl : found = 0 := Option.some.inj (search.symm.trans first)
  exact ⟨edits, next, done, made, nearest, madeAt⟩

end Document

end ChangeImpact
