import ChangeImpact.Patch.Edit

/-!
# What one edit does

Where the search for a line ends, what each kind of edit makes of a document and records, and how
the edits of a run follow one another.
-/

namespace ChangeImpact

/-! ## Lists cut at a place -/

theorem exists_append_of_getElem? {xs : List α} {i : Nat} {x : α} (h : xs[i]? = some x) :
    ∃ front rest, xs = front ++ x :: rest ∧ front.length = i := by
  obtain ⟨lt, rfl⟩ := List.getElem?_eq_some_iff.mp h
  exact ⟨xs.take i, xs.drop (i + 1), by simp, by simp; omega⟩

theorem insertIdx_length_append (front rest : List α) (x : α) :
    (front ++ rest).insertIdx front.length x = front ++ x :: rest := by
  induction front with
  | nil => simp
  | cons y front ih => simp [ih]

namespace Document

/-! ## The search for a line -/

theorem matchesAt_iff {doc : Document} {expected : String} {index : Nat} :
    doc.matchesAt expected index = true ↔
      ∃ text, doc.lines[index]? = some text ∧ Text.trim text = expected := by
  simp [matchesAt, line?, Option.any_eq_true]

/-- What the search outwards finds has the text and lies within the distances searched. -/
theorem matchesAt_of_searchOutward {doc : Document} {index found : Nat} {expected : String}
    {distance count : Nat} (h : doc.searchOutward index expected distance count = some found) :
    doc.matchesAt expected found = true ∧ index < found + distance + count := by
  induction count generalizing distance with
  | zero => simp [searchOutward] at h
  | succ count ih =>
    unfold searchOutward at h
    split at h
    · next above =>
      simp only [Bool.and_eq_true, decide_eq_true_eq] at above
      obtain rfl := Option.some.inj h
      exact ⟨above.2, by omega⟩
    · split at h
      · next below =>
        obtain rfl := Option.some.inj h
        exact ⟨below, by omega⟩
      · rcases ih h with ⟨same, near⟩
        exact ⟨same, by omega⟩

theorem searchOutward_eq_none_iff {doc : Document} {index : Nat} {expected : String}
    {distance count : Nat} :
    doc.searchOutward index expected distance count = none ↔
      ∀ d, distance ≤ d → d < distance + count →
        (d ≤ index → doc.matchesAt expected (index - d) = false) ∧
          doc.matchesAt expected (index + d) = false := by
  induction count generalizing distance with
  | zero => simp [searchOutward]; omega
  | succ count ih =>
    have split_first : (∀ d, distance ≤ d → d < distance + (count + 1) →
        (d ≤ index → doc.matchesAt expected (index - d) = false) ∧
          doc.matchesAt expected (index + d) = false) ↔
        ((distance ≤ index → doc.matchesAt expected (index - distance) = false) ∧
          doc.matchesAt expected (index + distance) = false) ∧
        ∀ d, distance + 1 ≤ d → d < distance + 1 + count →
          (d ≤ index → doc.matchesAt expected (index - d) = false) ∧
            doc.matchesAt expected (index + d) = false := by
      constructor
      · intro all
        exact ⟨all distance (by omega) (by omega), fun d low high => all d (by omega) (by omega)⟩
      · rintro ⟨first, later⟩ d low high
        by_cases same : d = distance
        · exact same ▸ first
        · exact later d (by omega) (by omega)
    rw [split_first]
    unfold searchOutward
    split <;> rename_i above <;> simp only [Bool.and_eq_true, decide_eq_true_eq, not_and] at above
    · simp [above]
    · split <;> rename_i below
      · simp [below]
      · simp only [Bool.not_eq_true] at above below
        rw [ih]
        exact (and_iff_right (And.intro above below)).symm

theorem find?_eq (doc : Document) (index : Nat) (expected : String) (window : Nat) :
    doc.find? index expected window =
      if doc.matchesAt (Text.trim expected) index then some index
      else doc.searchOutward index (Text.trim expected) 1 window := rfl

theorem find?_of_matches {doc : Document} {index : Nat} {text expected : String}
    (line : doc.lines[index]? = some text) (same : Text.trim text = Text.trim expected)
    (window : Nat) : doc.find? index expected window = some index := by
  simp [find?_eq, matchesAt_iff.mpr ⟨text, line, same⟩]

theorem matches_of_find? {doc : Document} {index found : Nat} {expected : String} {window : Nat}
    (h : doc.find? index expected window = some found) :
    ∃ text, doc.lines[found]? = some text ∧ Text.trim text = Text.trim expected ∧
      index ≤ found + window := by
  rw [find?_eq] at h
  split at h
  · next here =>
    obtain rfl := Option.some.inj h
    rcases matchesAt_iff.mp here with ⟨text, line, same⟩
    exact ⟨text, line, same, by omega⟩
  · obtain ⟨here, near⟩ := matchesAt_of_searchOutward h
    rcases matchesAt_iff.mp here with ⟨text, line, same⟩
    exact ⟨text, line, same, by omega⟩

/-- The search fails exactly if no line in the window has the text. -/
theorem find?_eq_none_iff {doc : Document} {index : Nat} {expected : String} {window : Nat} :
    doc.find? index expected window = none ↔
      ∀ i text, doc.lines[i]? = some text → index ≤ i + window → i ≤ index + window →
        Text.trim text ≠ Text.trim expected := by
  have unmatched : ∀ i, doc.matchesAt (Text.trim expected) i = false ↔
      ∀ text, doc.lines[i]? = some text → Text.trim text ≠ Text.trim expected := by
    intro i
    rw [← Bool.not_eq_true, matchesAt_iff]
    simp
  rw [find?_eq]
  constructor
  · intro h i text line low high
    by_cases here : doc.matchesAt (Text.trim expected) index = true
    · simp [here] at h
    simp only [here] at h
    have outward := searchOutward_eq_none_iff.mp h
    rcases Nat.lt_trichotomy i index with above | same | below
    · have missed := (outward (index - i) (by omega) (by omega)).1 (by omega)
      rw [show index - (index - i) = i by omega] at missed
      exact (unmatched i).mp missed text line
    · subst same
      exact (unmatched i).mp (by simpa using here) text line
    · have missed := (outward (i - index) (by omega) (by omega)).2
      rw [show index + (i - index) = i by omega] at missed
      exact (unmatched i).mp missed text line
  · intro all
    have here : doc.matchesAt (Text.trim expected) index = false :=
      (unmatched index).mpr fun text line => all index text line (by omega) (by omega)
    simp only [here, Bool.false_eq_true, if_false]
    refine searchOutward_eq_none_iff.mpr fun d low high => ⟨fun le => ?_, ?_⟩
    · exact (unmatched _).mpr fun text line => all _ text line (by omega) (by omega)
    · exact (unmatched _).mpr fun text line => all _ text line (by omega) (by omega)

/-! ## One edit -/

theorem insert_eq_insertIdx {doc : Document} {index : Nat} (h : index ≤ doc.lines.length)
    (text : String) :
    doc.insert index text = { doc with lines := doc.lines.insertIdx index text } := by
  have cut := insertIdx_length_append (doc.lines.take index) (doc.lines.drop index) text
  rw [List.take_append_drop, List.length_take_of_le h] at cut
  rw [insert, cut]

/-- The document with the line at `index` deleted or replaced as a patch says, and the patch as it
is recorded. -/
def amend (doc : Document) (mode : EditMode) (patch : Patch) (index : Nat) (current : String) :
    Document × Patch :=
  if patch.isDeletion then
    ({ doc with lines := doc.lines.eraseIdx index }, patch.asApplied (index + 1) current "")
  else
    ({ doc with lines := doc.lines.set index (patch.replacement mode current) },
      patch.asApplied (index + 1) current (patch.replacement mode current))

theorem edit_of_inserts {doc : Document} {mode : EditMode} {patch : Patch} (window : Nat)
    (numbered : 1 ≤ patch.line) (inside : patch.line ≤ doc.lines.length + 1)
    (inserts : patch.inserts mode = true) :
    doc.edit window mode patch =
      .ok ({ doc with lines := doc.lines.insertIdx (patch.line - 1) patch.newCode },
        patch.asApplied patch.line "" patch.newCode) := by
  have nonzero : patch.line ≠ 0 := by omega
  have reached : ¬ doc.lines.length < patch.line - 1 := by omega
  simp [edit, nonzero, inserts, length, reached,
    insert_eq_insertIdx (show patch.line - 1 ≤ doc.lines.length by omega)]

theorem edit_of_find? {doc : Document} {window : Nat} {mode : EditMode} {patch : Patch}
    {index : Nat} {current : String} (numbered : 1 ≤ patch.line)
    (inserts : patch.inserts mode = false)
    (found : doc.find? (patch.line - 1) patch.oldCode window = some index)
    (line : doc.lines[index]? = some current) :
    doc.edit window mode patch = .ok (doc.amend mode patch index current) := by
  have nonzero : patch.line ≠ 0 := by omega
  rcases matches_of_find? found with ⟨-, -, -, near⟩
  have bound : index < doc.lines.length := (List.getElem?_eq_some_iff.mp line).choose
  have reached : ¬ doc.lines.length + window ≤ patch.line - 1 := by omega
  cases deletion : patch.isDeletion <;>
    simp [edit, nonzero, inserts, length, reached, found, line?, line, amend, deletion, delete,
      replace]

theorem edit_of_matches {doc : Document} {mode : EditMode} {patch : Patch} {current : String}
    (window : Nat) (numbered : 1 ≤ patch.line) (inserts : patch.inserts mode = false)
    (line : doc.lines[patch.line - 1]? = some current)
    (same : Text.trim current = Text.trim patch.oldCode) :
    doc.edit window mode patch = .ok (doc.amend mode patch (patch.line - 1) current) :=
  edit_of_find? numbered inserts (find?_of_matches line same window) line

theorem edit_error_of_find?_eq_none {doc : Document} {window : Nat} {mode : EditMode}
    {patch : Patch} (inserts : patch.inserts mode = false)
    (missed : doc.find? (patch.line - 1) patch.oldCode window = none) :
    ∃ error, doc.edit window mode patch = .error error := by
  unfold edit
  by_cases zero : patch.line = 0
  · simp [zero]
  by_cases beyond : doc.length + window ≤ patch.line - 1
  · simp [zero, inserts, beyond]
  · simp [zero, inserts, beyond, missed]

/-- All that an edit which succeeds can have done. -/
theorem edit_cases {doc next : Document} {window : Nat} {mode : EditMode} {patch done : Patch}
    (h : doc.edit window mode patch = .ok (next, done)) :
    1 ≤ patch.line ∧
      ((patch.inserts mode = true ∧ patch.line ≤ doc.lines.length + 1 ∧
          next = { doc with lines := doc.lines.insertIdx (patch.line - 1) patch.newCode } ∧
          done = patch.asApplied patch.line "" patch.newCode) ∨
        ∃ index current, patch.inserts mode = false ∧
          doc.find? (patch.line - 1) patch.oldCode window = some index ∧
          doc.lines[index]? = some current ∧
            (next, done) = doc.amend mode patch index current) := by
  have numbered : 1 ≤ patch.line := by
    by_cases zero : patch.line = 0
    · simp [edit, zero] at h
    · omega
  refine ⟨numbered, ?_⟩
  cases inserts : patch.inserts mode with
  | true =>
    left
    have inside : patch.line ≤ doc.lines.length + 1 := by
      by_cases beyond : doc.length < patch.line - 1
      · simp [edit, inserts, beyond, Nat.ne_of_gt numbered] at h
      · simp only [length] at beyond; omega
    rw [edit_of_inserts window numbered inside inserts] at h
    simp only [Except.ok.injEq, Prod.mk.injEq] at h
    exact ⟨rfl, inside, h.1.symm, h.2.symm⟩
  | false =>
    right
    cases found : doc.find? (patch.line - 1) patch.oldCode window with
    | none =>
      obtain ⟨error, failed⟩ := edit_error_of_find?_eq_none inserts found
      simp [failed] at h
    | some index =>
      rcases matches_of_find? found with ⟨current, line, -, -⟩
      rw [edit_of_find? numbered inserts found line] at h
      exact ⟨index, current, rfl, rfl, line, (Except.ok.inj h).symm⟩

end Document

namespace EditRun

variable {window : Nat} {mode : EditMode} {doc next : Document} {patch done : Patch}

/-! ## The edits of a run -/

theorem foldl_step (patches : List Patch) (start : EditRun) :
    patches.foldl (step window mode) start =
      let rest := run window mode start.doc patches
      ⟨rest.doc, start.applied ++ rest.applied, start.failed ++ rest.failed⟩ := by
  induction patches generalizing start with
  | nil => simp [run]
  | cons patch patches ih =>
    simp only [run, List.foldl_cons]
    rw [ih, ih (step window mode ⟨start.doc, [], []⟩ patch)]
    unfold step
    cases start.doc.edit window mode patch <;> simp

theorem run_cons_ok (h : doc.edit window mode patch = .ok (next, done)) (patches : List Patch) :
    run window mode doc (patch :: patches) =
      let rest := run window mode next patches
      ⟨rest.doc, done :: rest.applied, rest.failed⟩ := by
  have first : step window mode ⟨doc, [], []⟩ patch = ⟨next, [done], []⟩ := by simp [step, h]
  rw [run, List.foldl_cons, first, foldl_step]
  simp

theorem run_cons_error {error : PatchError} (h : doc.edit window mode patch = .error error)
    (patches : List Patch) :
    run window mode doc (patch :: patches) =
      let rest := run window mode doc patches
      ⟨rest.doc, rest.applied, (patch, error) :: rest.failed⟩ := by
  have first : step window mode ⟨doc, [], []⟩ patch = ⟨doc, [], [(patch, error)]⟩ := by
    simp [step, h]
  rw [run, List.foldl_cons, first, foldl_step]
  simp

end EditRun

end ChangeImpact
