import ChangeImpact.Proofs.Patch.Replay

/-!
# The edits of a run, one by one

What a run applied: for each patch the document just before it and the record that was made. The
record of an edit replays it, unless an empty line was replaced, the record of which cannot be told
from that of an insertion.
-/

namespace ChangeImpact

/-- A patch that was applied: as it was asked for, as it was recorded, and the document just
before it. -/
structure AppliedEdit where
  patch : Patch
  done : Patch
  before : Document
  deriving DecidableEq

namespace AppliedEdit

def Made (window : Nat) (edit : AppliedEdit) : Prop :=
  ∃ next, edit.before.edit window .apply edit.patch = .ok (next, edit.done)

/-- The patch replaced a line without any text. -/
def FillsEmptyLine (edit : AppliedEdit) : Prop :=
  edit.patch.isInsertion = false ∧ edit.patch.isDeletion = false ∧ edit.done.oldCode = ""

instance (edit : AppliedEdit) : Decidable edit.FillsEmptyLine :=
  inferInstanceAs (Decidable (_ ∧ _ ∧ _))

/-- The new text is that of a single line, and no empty line was replaced. -/
def IsPlain (edit : AppliedEdit) : Prop :=
  Text.IsLine edit.patch.newCode ∧ ¬ edit.FillsEmptyLine

end AppliedEdit

namespace EditRun

def log (window : Nat) : Document → List Patch → List AppliedEdit
  | _, [] => []
  | doc, patch :: rest =>
    match doc.edit window .apply patch with
    | .ok (next, done) => ⟨patch, done, doc⟩ :: log window next rest
    | .error _ => log window doc rest

theorem map_done_log (window : Nat) (doc : Document) (patches : List Patch) :
    (log window doc patches).map (·.done) = (run window .apply doc patches).applied := by
  induction patches generalizing doc with
  | nil => rfl
  | cons patch rest ih =>
    cases edited : doc.edit window .apply patch with
    | ok pair => simp [log, edited, run_cons_ok edited, ih]
    | error error => simp [log, edited, run_cons_error edited, ih]

theorem mem_log {window : Nat} {doc : Document} {patches : List Patch} {edit : AppliedEdit}
    (mem : edit ∈ log window doc patches) : edit.patch ∈ patches ∧ edit.Made window := by
  induction patches generalizing doc with
  | nil => simp [log] at mem
  | cons patch rest ih =>
    unfold log at mem
    split at mem
    · next next done edited =>
      rcases List.mem_cons.mp mem with rfl | mem
      · exact ⟨List.mem_cons_self, next, edited⟩
      · obtain ⟨among, made⟩ := ih mem
        exact ⟨List.mem_cons_of_mem _ among, made⟩
    · rcases ih mem with ⟨among, made⟩
      exact ⟨List.mem_cons_of_mem _ among, made⟩

end EditRun

namespace Patch

theorem replacement_ne_empty {patch : Patch} (edits : patch.isDeletion = false) (mode : EditMode)
    (current : String) : patch.replacement mode current ≠ "" := by
  have newCode : patch.newCode ≠ "" := by simpa [isDeletion] using edits
  unfold replacement
  split
  · simp [newCode]
  · exact newCode

theorem isLine_replacement {patch : Patch} {current : String} (code : Text.IsLine patch.newCode)
    (line : Text.IsLine current) (mode : EditMode) :
    Text.IsLine (patch.replacement mode current) := by
  unfold replacement
  split
  · have among : ∀ c ∈ (Text.indentation current).toList, c ∈ current.toList := fun c mem =>
      (List.takeWhile_sublist _).subset (by simpa [Text.indentation, Text.leadingBlanks] using mem)
    constructor <;> rw [String.toList_append, List.mem_append, not_or]
    · exact ⟨fun mem => line.1 (among _ mem), code.1⟩
    · exact ⟨fun mem => line.2 (among _ mem), code.2⟩
  · exact code

end Patch

namespace AppliedEdit

/-- The record of an edit replays it. -/
theorem redo?_of_edit {window : Nat} {patch done : Patch} {doc next : Document}
    (h : doc.edit window .apply patch = .ok (next, done))
    (kept : ¬ (AppliedEdit.mk patch done doc).FillsEmptyLine) :
    done.path = patch.path ∧ done.redo? doc.lines = some next.lines ∧
      next = { doc with lines := next.lines } := by
  obtain ⟨numbered, ⟨inserts, inside, rfl, rfl⟩ | ⟨index, current, edits, -, line, made⟩⟩ :=
    Document.edit_cases h
  · have recorded : Patch.isInsertion (patch.asApplied patch.line "" patch.newCode) = true := by
      simp_all [Patch.inserts, Patch.isInsertion, Patch.asApplied]
    have positive : patch.line ≠ 0 := by omega
    have reached : patch.line - 1 ≤ doc.lines.length := by omega
    refine ⟨rfl, ?_, rfl⟩
    simp only [Patch.redo?, recorded, if_true]
    simp [Patch.asApplied, positive, reached]
  · unfold Document.amend at made
    split at made
    · next deletion =>
      simp only [Prod.mk.injEq] at made
      rcases made with ⟨rfl, rfl⟩
      refine ⟨rfl, ?_, rfl⟩
      exact Patch.redo?_of_line (by simp [Patch.isInsertion, Patch.asApplied]) rfl line
    · next deletion =>
      simp only [Prod.mk.injEq] at made
      obtain ⟨rfl, rfl⟩ := made
      have text := Patch.replacement_ne_empty (by simpa using deletion) .apply current
      have old : current ≠ "" := fun empty => kept
        ⟨by simpa [Patch.inserts] using edits, by simpa using deletion, empty⟩
      refine ⟨rfl, ?_, rfl⟩
      rw [Patch.redo?_of_line (by simp [Patch.isInsertion, Patch.asApplied, old]) rfl line]
      simp [Patch.isDeletion, Patch.asApplied, text]

theorem isLine_newCode_of_edit {window : Nat} {patch done : Patch} {doc next : Document}
    (h : doc.edit window .apply patch = .ok (next, done)) (code : Text.IsLine patch.newCode)
    (all : ∀ line ∈ doc.lines, Text.IsLine line) : Text.IsLine done.newCode := by
  rcases Document.edit_cases h with ⟨-, ⟨-, -, -, rfl⟩ | ⟨index, current, -, -, line, made⟩⟩
  · exact code
  · unfold Document.amend at made
    split at made
    · simp only [Prod.mk.injEq] at made
      rcases made with ⟨-, rfl⟩
      exact ⟨by simp [Patch.asApplied], by simp [Patch.asApplied]⟩
    · simp only [Prod.mk.injEq] at made
      obtain ⟨-, rfl⟩ := made
      exact Patch.isLine_replacement code (all current (List.mem_of_getElem? line)) .apply

/-- The record tells what the patch wrote: an edit recorded as one of a single line, and not as an
insertion, is plain. -/
theorem isPlain_of_edit {window : Nat} {patch done : Patch} {doc next : Document}
    (h : doc.edit window .apply patch = .ok (next, done)) (code : Text.IsLine done.newCode)
    (edits : done.isInsertion = false) : (AppliedEdit.mk patch done doc).IsPlain := by
  rcases Document.edit_cases h with ⟨-, ⟨inserts, -, -, rfl⟩ | ⟨index, current, -, -, -, made⟩⟩
  · simp_all [Patch.inserts, Patch.isInsertion, Patch.asApplied]
  · unfold Document.amend at made
    split at made
    · next deletion =>
      have empty : patch.newCode = "" := by simpa [Patch.isDeletion] using deletion
      exact ⟨by simp [empty, Text.IsLine], fun fills => by simp [fills.2.1] at deletion⟩
    · next deletion =>
      simp only [Prod.mk.injEq] at made
      rcases made with ⟨-, rfl⟩
      have text := Patch.replacement_ne_empty (by simpa using deletion) .apply current
      refine ⟨?_, fun fills => ?_⟩
      · simp only [Patch.asApplied, Patch.replacement] at code
        split at code
        · simp only [Text.IsLine, String.toList_append, List.mem_append, not_or] at code
          exact ⟨code.1.2, code.2.2⟩
        · exact code
      · have empty : current = "" := fills.2.2
        subst empty
        exact text (by simpa [Patch.isInsertion, Patch.asApplied] using edits)

end AppliedEdit

end ChangeImpact
