import ChangeImpact.Proofs.Rollback.Step

/-!
# Undoing a single edit

The record of an edit, turned round and undone on the document that the edit left, gives back the
document before it. The exception is an edit that puts a text on an empty line: its record reads
like that of an insertion, so undoing it deletes the line.
-/

namespace ChangeImpact

namespace AppliedEdit

/-- The lines that undoing an edit leaves: those before it, or without the line that was empty. -/
def linesUndone (edit : AppliedEdit) : List String :=
  if edit.FillsEmptyLine then edit.before.lines.eraseIdx (edit.done.line - 1)
  else edit.before.lines

end AppliedEdit

namespace Document

open PatchEngine

variable {doc next : Document} {window : Nat} {patch done : Patch}

theorem undoes_insertion (inserts : patch.isInsertion = true) (numbered : 1 ≤ patch.line)
    (inside : patch.line ≤ doc.lines.length + 1) :
    let done := patch.asApplied patch.line "" patch.newCode
    let lines := doc.lines.insertIdx (patch.line - 1) patch.newCode
    StandsAt done done.line lines ∧
      undone done done.line lines = (AppliedEdit.mk patch done doc).linesUndone := by
  intro done lines
  have keeps : ¬ (AppliedEdit.mk patch done doc).FillsEmptyLine := fun fills => by
    simp [fills.1] at inserts
  obtain ⟨front, rest, split, length⟩ : ∃ front rest, doc.lines = front ++ rest ∧
      front.length = patch.line - 1 :=
    ⟨_, _, (List.take_append_drop (patch.line - 1) doc.lines).symm, by simp; omega⟩
  have newCode : patch.newCode ≠ "" := by simp_all [Patch.isInsertion]
  rw [AppliedEdit.linesUndone, if_neg keeps]
  simp [StandsAt, undone, Patch.isDeletion, Patch.isInsertion, Patch.asApplied, newCode, numbered,
    split, ← length, insertIdx_length_append, List.eraseIdx_append_of_length_le, done, lines]

variable {index : Nat} {current : String}

theorem undoes_deletion (deletion : patch.isDeletion = true)
    (line : doc.lines[index]? = some current) :
    let done := patch.asApplied (index + 1) current ""
    let lines := doc.lines.eraseIdx index
    StandsAt done done.line lines ∧
      undone done done.line lines = (AppliedEdit.mk patch done doc).linesUndone := by
  intro done lines
  have keeps : ¬ (AppliedEdit.mk patch done doc).FillsEmptyLine := fun fills => by
    simp [fills.2.1] at deletion
  obtain ⟨front, rest, split, length⟩ := exists_append_of_getElem? line
  rw [AppliedEdit.linesUndone, if_neg keeps]
  simp [StandsAt, undone, Patch.isDeletion, Patch.asApplied, split, ← length,
    List.eraseIdx_append_of_length_le, insertIdx_length_append, done, lines]

theorem undoes_replacement (notInsertion : patch.isInsertion = false)
    (notDeletion : patch.isDeletion = false) (line : doc.lines[index]? = some current)
    {text : String} (written : text ≠ "") :
    let done := patch.asApplied (index + 1) current text
    let lines := doc.lines.set index text
    StandsAt done done.line lines ∧
      undone done done.line lines = (AppliedEdit.mk patch done doc).linesUndone := by
  intro done lines
  have fills : (AppliedEdit.mk patch done doc).FillsEmptyLine ↔ current = "" :=
    ⟨fun fills => fills.2.2, fun empty => ⟨notInsertion, notDeletion, empty⟩⟩
  obtain ⟨front, rest, split, length⟩ := exists_append_of_getElem? line
  refine ⟨by simp [StandsAt, Patch.isDeletion, Patch.asApplied, written, split, ← length, done,
    lines], ?_⟩
  rw [AppliedEdit.linesUndone]
  simp only [fills]
  by_cases empty : current = "" <;>
    simp [undone, Patch.isDeletion, Patch.isInsertion, Patch.asApplied, written, empty, split,
      ← length, List.eraseIdx_append_of_length_le, done, lines]

/-- An edit changes the lines of a document alone, and its record can be undone where it stands. -/
theorem undoes_edit (made : doc.edit window .apply patch = .ok (next, done)) :
    next = { doc with lines := next.lines } ∧ StandsAt done done.line next.lines ∧
      undone done done.line next.lines = (AppliedEdit.mk patch done doc).linesUndone := by
  obtain ⟨numbered, ⟨inserts, inside, rfl, rfl⟩ | ⟨index, current, edits, -, line, made⟩⟩ :=
    edit_cases made
  · have inserts : patch.isInsertion = true := by simpa [Patch.inserts] using inserts
    exact ⟨rfl, undoes_insertion inserts numbered inside⟩
  · unfold amend at made
    split at made
    · next deletion =>
      obtain ⟨rfl, rfl⟩ := Prod.mk.inj made
      exact ⟨rfl, undoes_deletion deletion line⟩
    · next writes =>
      obtain ⟨rfl, rfl⟩ := Prod.mk.inj made
      have notInsertion : patch.isInsertion = false := by simpa [Patch.inserts] using edits
      have notDeletion : patch.isDeletion = false := by simpa using writes
      exact ⟨rfl, undoes_replacement notInsertion notDeletion line
        (Patch.replacement_ne_empty notDeletion .apply current)⟩

theorem line_lt_of_fillsEmptyLine (made : doc.edit window .apply patch = .ok (next, done))
    (fills : (AppliedEdit.mk patch done doc).FillsEmptyLine) : done.line - 1 < doc.lines.length := by
  obtain ⟨-, ⟨inserts, -, -, -⟩ | ⟨index, current, -, -, line, made⟩⟩ := edit_cases made
  · have notInsertion : patch.isInsertion = false := fills.1
    simp [Patch.inserts, notInsertion] at inserts
  · have recorded : done.line = index + 1 := by
      have same := congrArg (·.2.line) made
      simp only [amend] at same
      split at same <;> exact same
    rw [recorded]
    exact (List.getElem?_eq_some_iff.mp line).1

/-- Undoing the record of an edit on the document that the edit left always succeeds, whatever the
drift window. It gives back the document before the edit exactly if the edit did not put a text on
an empty line; if it did, that line is gone. -/
theorem edit_inverse_restores_iff (made : doc.edit window .apply patch = .ok (next, done))
    (again : Nat) :
    ∃ back record, next.edit again .undo done.inverse = .ok (back, record) ∧
      (back = doc ↔ ¬ (AppliedEdit.mk patch done doc).FillsEmptyLine) ∧
      ((AppliedEdit.mk patch done doc).FillsEmptyLine → back = doc.delete (done.line - 1)) := by
  obtain ⟨same, stands, lines⟩ := undoes_edit made
  have back : ∃ record, next.edit again .undo done.inverse =
      .ok ({ doc with lines := (AppliedEdit.mk patch done doc).linesUndone }, record) := by
    rw [same, ← lines]
    obtain ⟨record, undid, -⟩ := edit_inverse_of_standsAt stands again
    exact ⟨record, undid⟩
  obtain ⟨record, undid⟩ := back
  refine ⟨_, record, undid, ?_⟩
  by_cases fills : (AppliedEdit.mk patch done doc).FillsEmptyLine
  · have dropped : { doc with lines := (AppliedEdit.mk patch done doc).linesUndone } =
        doc.delete (done.line - 1) := by
      rw [AppliedEdit.linesUndone, if_pos fills]
      rfl
    have shorter : doc.delete (done.line - 1) ≠ doc := by
      intro equal
      have length := congrArg Document.length equal
      have inside := line_lt_of_fillsEmptyLine made fills
      simp only [delete, Document.length, List.length_eraseIdx_of_lt inside] at length
      omega
    rw [dropped]
    exact ⟨⟨fun equal => absurd equal shorter, fun keeps => absurd fills keeps⟩, fun _ => rfl⟩
  · have restored : { doc with lines := (AppliedEdit.mk patch done doc).linesUndone } = doc := by
      rw [AppliedEdit.linesUndone, if_neg fills]
    rw [restored]
    exact ⟨⟨fun _ => fills, fun _ => rfl⟩, fun other => absurd other fills⟩

/-- A deletion of a blank line that drifted by one line, undone with a drift window of its own. -/
theorem edit_inverse_restores_iff_blank_line :
    let doc : Document := ⟨["a", " ", "b"], .crlf, false⟩
    let patch : Patch := ⟨"p", "a.ts", 1, "", "", "", true, none, none⟩
    let done := patch.asApplied 2 " " ""
    doc.edit 5 .apply patch = .ok (⟨["a", "b"], .crlf, false⟩, done) ∧
      ∃ record, Document.edit ⟨["a", "b"], .crlf, false⟩ 0 .undo done.inverse =
        .ok (doc, record) := by
  intro doc patch done
  have made : doc.edit 5 .apply patch = .ok (⟨["a", "b"], .crlf, false⟩, done) := by decide
  obtain ⟨back, record, undid, restored, -⟩ := edit_inverse_restores_iff made 0
  refine ⟨made, record, ?_⟩
  rw [undid, restored.mpr (by decide)]

/-- A text put on an empty line by a patch for a blank one: undoing it leaves a line less. -/
theorem edit_inverse_drops_filled_line :
    let doc : Document := ⟨["a", "", "b"], .lf, true⟩
    let patch : Patch := ⟨"p", "a.ts", 2, " ", "x", "", true, none, none⟩
    ∃ next done, doc.edit 5 .apply patch = .ok (next, done) ∧
      ¬ ∃ record, next.edit 5 .undo done.inverse = .ok (doc, record) := by
  intro doc patch
  refine ⟨⟨["a", "x", "b"], .lf, true⟩, patch.asApplied 2 "" "x", by decide, ?_⟩
  rintro ⟨record, undid⟩
  have undone : (Document.edit ⟨["a", "x", "b"], .lf, true⟩ 5 .undo
      (patch.asApplied 2 "" "x").inverse).toOption.map (·.1.lines) = some ["a", "b"] := by
    decide
  rw [undid] at undone
  exact absurd (Option.some.inj undone) (by simp [doc])

end Document

end ChangeImpact
