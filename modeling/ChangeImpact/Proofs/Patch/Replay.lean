import ChangeImpact.Proofs.Patch.Edit
import ChangeImpact.Proofs.Text.WholeLines

/-!
# Replaying recorded patches

A recorded patch tells its line and the texts as they really were, so that the lines of a file
before an edit and the record of it give the lines after the edit. Replaying all records of a file
on its first lines gives its last lines.
-/

namespace ChangeImpact

namespace Patch

/-- What a recorded patch makes of the lines of its file. There must be a line with the recorded
text at the recorded line. -/
def redo? (entry : Patch) (lines : List String) : Option (List String) :=
  if entry.line = 0 then none
  else if entry.isInsertion then
    if entry.line - 1 ≤ lines.length then some (lines.insertIdx (entry.line - 1) entry.newCode)
    else none
  else if lines[entry.line - 1]? = some entry.oldCode then
    if entry.isDeletion then some (lines.eraseIdx (entry.line - 1))
    else some (lines.set (entry.line - 1) entry.newCode)
  else none

/-- What recorded patches, oldest first, make of the lines of the file `path`. -/
def replay? (path : String) : List Patch → List String → Option (List String)
  | [], lines => some lines
  | entry :: rest, lines =>
    if entry.path = path then (entry.redo? lines).bind (replay? path rest)
    else replay? path rest lines

theorem replay?_cons_of_eq {path : String} {entry : Patch} (same : entry.path = path)
    (rest : List Patch) (lines : List String) :
    replay? path (entry :: rest) lines = (entry.redo? lines).bind (replay? path rest) := by
  simp [replay?, same]

theorem replay?_cons_of_ne {path : String} {entry : Patch} (differ : entry.path ≠ path)
    (rest : List Patch) (lines : List String) :
    replay? path (entry :: rest) lines = replay? path rest lines := by
  simp [replay?, differ]

theorem replay?_append (path : String) (first second : List Patch) (lines : List String) :
    replay? path (first ++ second) lines =
      (replay? path first lines).bind (replay? path second) := by
  induction first generalizing lines with
  | nil => rfl
  | cons entry rest ih =>
    by_cases same : entry.path = path
    · rw [List.cons_append, replay?_cons_of_eq same, replay?_cons_of_eq same, Option.bind_assoc]
      exact congrArg _ (funext ih)
    · rw [List.cons_append, replay?_cons_of_ne same, replay?_cons_of_ne same, ih]

theorem replay?_of_path_ne {path : String} {entries : List Patch}
    (apart : ∀ entry ∈ entries, entry.path ≠ path) (lines : List String) :
    replay? path entries lines = some lines := by
  induction entries with
  | nil => rfl
  | cons entry rest ih =>
    rw [replay?_cons_of_ne (apart entry List.mem_cons_self)]
    exact ih fun other mem => apart other (List.mem_cons_of_mem _ mem)

/-! ## What a record can be -/

theorem redo?_of_isInsertion {entry : Patch} {lines next : List String}
    (inserts : entry.isInsertion = true) (h : entry.redo? lines = some next) :
    1 ≤ entry.line ∧ entry.line - 1 ≤ lines.length ∧
      next = lines.insertIdx (entry.line - 1) entry.newCode := by
  simp only [redo?, inserts, if_true] at h
  split at h
  · simp at h
  · split at h
    · next reached => exact ⟨by omega, reached, (Option.some.inj h).symm⟩
    · simp at h

theorem redo?_of_edits {entry : Patch} {lines next : List String}
    (edits : entry.isInsertion = false) (h : entry.redo? lines = some next) :
    1 ≤ entry.line ∧ lines[entry.line - 1]? = some entry.oldCode ∧
      next = if entry.isDeletion then lines.eraseIdx (entry.line - 1)
        else lines.set (entry.line - 1) entry.newCode := by
  simp only [redo?, edits, Bool.false_eq_true, if_false] at h
  split at h
  · simp at h
  split at h
  · next same =>
    refine ⟨by omega, same, ?_⟩
    split at h <;> rename_i deletion <;> simp [deletion, Option.some.inj h]
  · simp at h

theorem redo?_of_line {entry : Patch} {lines : List String} (edits : entry.isInsertion = false)
    {row : Nat} (line : entry.line = row + 1) (old : lines[row]? = some entry.oldCode) :
    entry.redo? lines = some (if entry.isDeletion then lines.eraseIdx row
      else lines.set row entry.newCode) := by
  cases deletion : entry.isDeletion <;> simp [redo?, edits, line, old, deletion]

theorem one_le_line_of_redo? {entry : Patch} {lines next : List String}
    (h : entry.redo? lines = some next) : 1 ≤ entry.line := by
  cases insertion : entry.isInsertion with
  | true => exact (redo?_of_isInsertion insertion h).1
  | false => exact (redo?_of_edits insertion h).1

theorem one_le_line_of_replay? {path : String} {entries : List Patch} {lines last : List String}
    (h : replay? path entries lines = some last) :
    ∀ entry ∈ entries, entry.path = path → 1 ≤ entry.line := by
  induction entries generalizing lines with
  | nil => simp
  | cons first rest ih =>
    rintro entry (_ | ⟨_, mem⟩) ofPath
    · rw [replay?_cons_of_eq ofPath] at h
      rcases Option.bind_eq_some_iff.mp h with ⟨next, redone, -⟩
      exact one_le_line_of_redo? redone
    · by_cases same : first.path = path
      · rw [replay?_cons_of_eq same] at h
        rcases Option.bind_eq_some_iff.mp h with ⟨next, -, h⟩
        exact ih h entry mem ofPath
      · rw [replay?_cons_of_ne same] at h
        exact ih h entry mem ofPath

theorem isLine_of_redo? {entry : Patch} {lines next : List String}
    (h : entry.redo? lines = some next) (code : Text.IsLine entry.newCode)
    (all : ∀ line ∈ lines, Text.IsLine line) : ∀ line ∈ next, Text.IsLine line := by
  intro line mem
  cases insertion : entry.isInsertion with
  | true =>
    obtain ⟨-, reached, rfl⟩ := redo?_of_isInsertion insertion h
    rcases (List.mem_insertIdx reached).mp mem with rfl | mem
    · exact code
    · exact all line mem
  | false =>
    rcases redo?_of_edits insertion h with ⟨-, -, rfl⟩
    split at mem
    · exact all line (List.mem_of_mem_eraseIdx mem)
    · rcases List.mem_or_eq_of_mem_set mem with mem | rfl
      · exact all line mem
      · exact code

theorem isLine_of_replay? {path : String} {entries : List Patch} {lines last : List String}
    (h : replay? path entries lines = some last)
    (codes : ∀ entry ∈ entries, Text.IsLine entry.newCode)
    (all : ∀ line ∈ lines, Text.IsLine line) : ∀ line ∈ last, Text.IsLine line := by
  induction entries generalizing lines with
  | nil => exact Option.some.inj h ▸ all
  | cons entry rest ih =>
    have codes' : ∀ other ∈ rest, Text.IsLine other.newCode := fun other mem =>
      codes other (List.mem_cons_of_mem _ mem)
    by_cases same : entry.path = path
    · rw [replay?_cons_of_eq same] at h
      rcases Option.bind_eq_some_iff.mp h with ⟨next, redone, h⟩
      exact ih h codes' (isLine_of_redo? redone (codes entry List.mem_cons_self) all)
    · rw [replay?_cons_of_ne same] at h
      exact ih h codes' all

end Patch

end ChangeImpact
