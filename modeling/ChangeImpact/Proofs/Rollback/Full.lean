import ChangeImpact.Proofs.Rollback.Step
import Mathlib.Data.List.Induction

/-!
# Undoing everything

Undoing a whole history, the newest record first, gives every file the text that it had just before
the oldest record of it was made.
-/

namespace ChangeImpact

namespace PatchEngine

variable {σ : Type} [SourceStore σ] [LawfulStore σ] {files : String → Except IoError String}

theorem revertible_nil (entry : Patch) : Revertible entry [] where
  onlyEdits := by simp [Patch.OnlyEdits]
  last_of_isInsertion := by simp
  intact := by simp [Patch.follow?]

/-- A run of undos from the newest record to the oldest leaves nothing of the history, and the
store as it was before the oldest. -/
theorem undoAll_history {run : RollbackRun σ} (replays : Replays files run.history run.store)
    (accepts : SourceStore.AcceptsWrites run.store) (untried : run.skipped = [])
    {applied : List Patch} {modified : List String}
    (result : run.result = .ofParts applied [] [] modified) (window : Nat) :
    let last := undoAll window run (run.history.map (·.id)).reverse
    last.history = [] ∧ Replays files [] last.store ∧
      ∃ applied modified, last.result = .ofParts applied [] [] modified := by
  generalize records : run.history = history at replays ⊢
  induction history using List.reverseRecOn generalizing run applied modified with
  | nil => exact ⟨records, replays, applied, modified, result⟩
  | append_singleton front entry ih =>
    have tries : Tries run entry.id front entry [] :=
      ⟨records, by rw [records, untried]; exact latestIndex?_concat front entry⟩
    rw [← records] at replays
    have step := undoStep_of_revertible replays accepts tries (revertible_nil entry) window
    obtain ⟨done, -, reported⟩ := step.reported
    rw [result] at reported
    have left : (undoStep window run entry.id).history = front := by
      simpa [rebase, shiftAfter] using step.history
    have next := ih step.accepts (by simpa [untried] using step.skipped) reported left
      (left ▸ step.replays)
    simpa [undoAll] using next

/-- Rolling back a batch that fits into the history and inserted no line restores all files. -/
theorem rollback_none_of_apply {engine : PatchEngine} {store : σ} {patches : List Patch}
    (begins : Begins engine store)
    (codes : ∀ entry ∈ (engine.apply store patches).2.2.patchesApplied, Text.IsLine entry.newCode)
    (edits : ∀ entry ∈ (engine.apply store patches).2.2.patchesApplied, entry.isInsertion = false)
    (room : (engine.apply store patches).2.2.patchesApplied.length ≤ engine.historyLimit) :
    let back := (engine.apply store patches).1.rollback (engine.apply store patches).2.1 none
    back.2.2.success = true ∧ back.1.history = [] ∧
      ∀ path, SourceStore.read back.2.1 path = SourceStore.read store path := by
  intro back
  have built : engine.applyBatches store [patches] = ((engine.apply store patches).1,
      (engine.apply store patches).2.1, (engine.apply store patches).2.2.patchesApplied) := by
    simp [applyBatches]
  obtain ⟨forgotten, split, tracked⟩ := tracked_applyBatches begins built codes edits
  have kept : (engine.apply store patches).1.history =
      (engine.apply store patches).2.2.patchesApplied := by
    have fits : engine.history.length ≤ engine.historyLimit := by simp [begins.history]
    rw [apply_engine_of_fits fits, begins.history, List.nil_append, takeLast_of_length_le room]
  have none : forgotten = [] := by simpa [kept] using split
  subst none
  obtain ⟨emptied, restored, applied, modified, result⟩ :=
    @undoAll_history σ _ _ _
      (beginRollback (engine.apply store patches).1 (engine.apply store patches).2.1 none)
      tracked.replays tracked.accepts rfl [] [] rfl (engine.apply store patches).1.driftWindow
  refine ⟨congrArg PatchApplyResult.success result, emptied, fun path => ?_⟩
  rw [← filesAfter_nil begins.whole]
  exact restored.read_of_path_ne (by simp)

/-- Rolling everything back succeeds, empties the history, and gives each file the text it had just
before the oldest record kept of it was made. If no record was forgotten, these are the first
texts. -/
theorem rollback_none_restores {engine : PatchEngine} {store : σ} {batches : List (List Patch)}
    (begins : Begins engine store)
    (codes : ∀ batch ∈ batches, ∀ patch ∈ batch, Text.IsLine patch.newCode)
    (texts : ∀ edit ∈ sessionLog engine store batches, ¬ edit.FillsEmptyLine) :
    let log := sessionLog engine store batches
    let kept := takeLast engine.historyLimit log
    let session := applyBatches engine store batches
    let back := session.1.rollback session.2.1 none
    session.1.history = kept.map (·.done) ∧ back.2.2.success = true ∧ back.1.history = [] ∧
      (∀ path, SourceStore.read back.2.1 path =
        match kept.find? (·.done.path == path) with
        | some edit => .ok edit.before.render
        | none => SourceStore.read session.2.1 path) ∧
      (log.length ≤ engine.historyLimit →
        ∀ path, SourceStore.read back.2.1 path = SourceStore.read store path) := by
  intro log kept session back
  have plain : ∀ edit ∈ log, edit.IsPlain := by
    intro edit mem
    obtain ⟨⟨batch, listed, among⟩, -⟩ := mem_sessionLog mem
    exact ⟨codes batch listed _ among, texts edit mem⟩
  obtain ⟨forgotten, cut, history, recent⟩ := replays_history begins plain
  obtain ⟨emptied, restored, applied, modified, result⟩ :=
    @undoAll_history σ _ _ _ (beginRollback session.1 session.2.1 none) recent
      (acceptsWrites_applyBatches begins.accepts) rfl [] [] rfl session.1.driftWindow
  have last : ∀ path, SourceStore.read back.2.1 path =
      filesAfter (SourceStore.read store) (forgotten.map (·.done)) path :=
    fun path => restored.read_of_path_ne (by simp)
  refine ⟨history, congrArg PatchApplyResult.success result, emptied, fun path => ?_, ?_⟩
  · rw [last path]
    cases oldest : kept.find? (·.done.path == path) with
    | none =>
      have apart : ∀ entry ∈ session.1.history, entry.path ≠ path := by
        intro entry mem same
        rw [history] at mem
        obtain ⟨edit, among, rfl⟩ := List.mem_map.mp mem
        exact List.find?_eq_none.mp oldest edit among (by simpa using same)
      exact (recent.read_of_path_ne apart).symm
    | some edit =>
      obtain ⟨same, before, rest, split, others⟩ := List.find?_eq_some_iff_append.mp oldest
      obtain rfl : edit.done.path = path := by simpa using same
      have logged := (replays_applyBatches (Replays.start begins.whole) plain).1
      rw [show sessionLog engine store batches = forgotten ++ kept from cut, split] at logged
      exact filesAfter_of_logged logged fun other mem => by simpa using others other mem
  · intro short path
    have nothing : forgotten = [] := by
      have lengths : log.length = (forgotten ++ kept).length := congrArg List.length cut
      rw [List.length_append, show kept = log from takeLast_of_length_le short] at lengths
      exact List.eq_nil_of_length_eq_zero (by omega)
    rw [last path, nothing, List.map_nil, filesAfter_nil begins.whole]

/-- Of an insertion, a replacement that takes over an indentation, a deletion that drifted and a
patch that fails, a history of two records keeps the replacement and the deletion. -/
theorem rollback_none_restores_kept_records :
    let store : MemoryStore := { files := [("a.ts", "  one\ntwo\nthree\n")] }
    let batches : List (List Patch) :=
      [[⟨"p1", "a.ts", 1, "one", "uno", "", true, none, none⟩,
          ⟨"p2", "a.ts", 2, "", "inserted", "", true, none, none⟩],
        [⟨"p3", "a.ts", 3, "three", "", "", true, none, none⟩,
          ⟨"p4", "a.ts", 1, "four", "x", "", true, none, none⟩]]
    let session := applyBatches ⟨[], 2, 5⟩ store batches
    let back := session.1.rollback session.2.1 none
    SourceStore.read session.2.1 "a.ts" = .ok "  uno\ninserted\ntwo\n" ∧
      session.1.history.map (·.id) = ["p1", "p3"] ∧ back.2.2.success = true ∧
        back.1.history = [] ∧
          SourceStore.read back.2.1 "a.ts" = .ok "  one\ninserted\ntwo\nthree\n" := by
  intro store batches
  have begins : Begins ⟨[], 2, 5⟩ store :=
    ⟨rfl, MemoryStore.acceptsWrites rfl, MemoryStore.holdsLineTexts (by decide)⟩
  have restores :=
    @rollback_none_restores MemoryStore _ _ ⟨[], 2, 5⟩ store batches begins
      (by decide) (by decide)
  dsimp only at restores ⊢
  obtain ⟨-, success, emptied, files, -⟩ := restores
  refine ⟨by decide, by decide, success, emptied, (files "a.ts").trans ?_⟩
  decide

end PatchEngine

end ChangeImpact
