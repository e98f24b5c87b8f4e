import ChangeImpact.Proofs.Rollback.Step
import Mathlib.Data.List.Perm.Subperm

/-!
# Undoing in any order

Where no record touches a line that another one wrote, every record can be undone at any time. What
is left of the history always tells how the first files become the present ones.
-/

namespace ChangeImpact

namespace Patch

/-- No line written by a replacement is replaced or deleted by a later patch. -/
def WritesOnce : List Patch → Prop
  | [] => True
  | entry :: later =>
    (entry.isDeletion = false → (follow? entry.path entry.line later).isSome = true) ∧
      WritesOnce later

instance WritesOnce.decidable : (entries : List Patch) → Decidable (WritesOnce entries)
  | [] => .isTrue trivial
  | _ :: later =>
    have := WritesOnce.decidable later
    inferInstanceAs (Decidable (_ ∧ _))

theorem WritesOnce.later {front later : List Patch} {entry : Patch}
    (once : WritesOnce (front ++ entry :: later)) : WritesOnce (entry :: later) := by
  induction front with
  | nil => exact once
  | cons first front ih => exact ih once.2

theorem follow?_append (path : String) (line : Nat) (first second : List Patch) :
    follow? path line (first ++ second) =
      (follow? path line first).bind fun place => follow? path place second := by
  induction first generalizing line with
  | nil => rfl
  | cons patch rest ih =>
    simp only [List.cons_append, follow?]
    split
    · split
      · rfl
      · exact ih _
    · exact ih line

end Patch

namespace PatchEngine

open Patch

/-! ## Lines followed under an undo -/

def pushedDown (restored line : Nat) : Nat :=
  if restored ≤ line then line + 1 else line

theorem follow?_shiftAfter_of_ne {path other : String} (differ : other ≠ path)
    (restored line : Nat) (later : List Patch) :
    follow? other line (shiftAfter path restored later) = follow? other line later := by
  induction later generalizing restored line with
  | nil => rfl
  | cons patch rest ih =>
    by_cases same : patch.path = path
    · have apart : patch.path ≠ other := fun here => differ (here.symm.trans same)
      by_cases le : restored ≤ patch.line
      · simp [shiftAfter_cons_of_le same le, follow?, apart, ih]
      · simp [shiftAfter_cons_of_lt same (by omega : patch.line < restored), follow?, apart, ih]
    · simp [shiftAfter_cons_of_ne same, follow?, ih]

/-- A line is followed by the moved records just as it was by the records themselves. -/
theorem follow?_shiftAfter (path : String) (restored line : Nat) (later : List Patch) :
    (follow? path (pushedDown restored line) (shiftAfter path restored later)).isSome =
      (follow? path line later).isSome := by
  induction later generalizing restored line with
  | nil => rfl
  | cons patch rest ih =>
    by_cases same : patch.path = path
    · by_cases le : restored ≤ patch.line
      · have hit : patch.line + 1 = pushedDown restored line ↔ patch.line = line := by
          unfold pushedDown
          split <;> omega
        have moved : (if patch.isDeletion = true ∧ patch.line + 1 < pushedDown restored line then
            pushedDown restored line - 1 else pushedDown restored line) =
              pushedDown restored
                (if patch.isDeletion = true ∧ patch.line < line then line - 1 else line) := by
          unfold pushedDown
          grind
        rw [shiftAfter_cons_of_le same le]
        simp only [follow?, same, if_true, hit]
        by_cases here : patch.line = line
        · simp [here]
        · rw [if_neg here, if_neg here, ← ih restored, ← moved]
          rfl
      · have hit : patch.line = pushedDown restored line ↔ patch.line = line := by
          unfold pushedDown
          split <;> omega
        have moved : patch.line ≠ line →
            (if patch.isDeletion = true ∧ patch.line < pushedDown restored line then
              pushedDown restored line - 1 else pushedDown restored line) =
              pushedDown (if patch.isDeletion = true then restored - 1 else restored)
                (if patch.isDeletion = true ∧ patch.line < line then line - 1 else line) := by
          unfold pushedDown
          grind
        rw [shiftAfter_cons_of_lt same (by omega)]
        simp only [follow?, same, if_true, hit]
        by_cases here : patch.line = line
        · simp [here]
        · rw [if_neg here, if_neg here, moved here, ih]
    · simp [shiftAfter_cons_of_ne same, follow?, same, ih]

theorem writesOnce_shiftAfter (path : String) (restored : Nat) {later : List Patch}
    (once : WritesOnce later) : WritesOnce (shiftAfter path restored later) := by
  induction later generalizing restored with
  | nil => exact once
  | cons patch rest ih =>
    rcases once with ⟨kept, once⟩
    by_cases same : patch.path = path
    · by_cases le : restored ≤ patch.line
      · rw [shiftAfter_cons_of_le same le]
        refine ⟨fun edits => ?_, ih restored once⟩
        have moved := follow?_shiftAfter path restored patch.line rest
        rw [pushedDown, if_pos le, ← same, kept edits] at moved
        exact same ▸ moved
      · rw [shiftAfter_cons_of_lt same (by omega)]
        refine ⟨fun edits => ?_, ih _ once⟩
        have moved := follow?_shiftAfter path restored patch.line rest
        rw [pushedDown, if_neg le, ← same, kept edits] at moved
        simpa [edits, same] using moved
    · rw [shiftAfter_cons_of_ne same]
      refine ⟨fun edits => ?_, ih restored once⟩
      rw [follow?_shiftAfter_of_ne same]
      exact kept edits

/-- A line that a record did not touch is followed as well without the record. -/
theorem follow?_rebase {path : String} {line : Nat} {entry : Patch} {later : List Patch}
    (h : (follow? path line (entry :: later)).isSome = true) :
    (follow? path line (rebase entry later)).isSome = true := by
  by_cases same : entry.path = path
  · simp only [follow?, same, if_true] at h
    by_cases here : entry.line = line
    · simp [here] at h
    rw [if_neg here] at h
    cases deletion : entry.isDeletion with
    | false => simpa [rebase, deletion] using h
    | true =>
      simp only [deletion, true_and] at h
      have back : pushedDown entry.line (if entry.line < line then line - 1 else line) = line := by
        unfold pushedDown
        grind
      have moved := follow?_shiftAfter path entry.line
        (if entry.line < line then line - 1 else line) later
      rw [back, h] at moved
      simpa [rebase, deletion, same] using moved
  · simp only [follow?, same, if_false] at h
    unfold rebase
    split
    · rwa [follow?_shiftAfter_of_ne (Ne.symm same)]
    · exact h

theorem writesOnce_rebase {front later : List Patch} {entry : Patch}
    (once : WritesOnce (front ++ entry :: later)) : WritesOnce (front ++ rebase entry later) := by
  induction front with
  | nil =>
    obtain ⟨-, once⟩ := once
    rw [List.nil_append, rebase]
    split
    · exact writesOnce_shiftAfter _ _ once
    · exact once
  | cons first front ih =>
    rw [List.cons_append] at once ⊢
    rcases once with ⟨kept, once⟩
    refine ⟨fun edits => ?_, ih once⟩
    have followed := kept edits
    rw [follow?_append] at followed ⊢
    cases place : follow? first.path first.line front with
    | none => simp [place] at followed
    | some line =>
      rw [place, Option.bind_some] at followed
      exact follow?_rebase followed

/-! ## Undoing some of the records -/

variable {σ : Type} [SourceStore σ] {files : String → Except IoError String}

/-- A tracked history in which each written line is still there, so that every record can be
undone. -/
structure Undoable (files : String → Except IoError String) (history : List Patch) (store : σ) :
    Prop extends Tracked files history store where
  once : WritesOnce history

/-- One step: an undo of a selected record succeeds, and every record left can still be undone. -/
theorem undoable_undoStep [LawfulStore σ] {run : RollbackRun σ} {id : String}
    (undoable : Undoable files run.history run.store) {front later : List Patch} {entry : Patch}
    (tries : Tries run id front entry later) (window : Nat) :
    Undoes files run (undoStep window run id) front entry later ∧
      Undoable files (undoStep window run id).history (undoStep window run id).store := by
  have once : WritesOnce (front ++ entry :: later) := tries.history ▸ undoable.once
  obtain ⟨step, tracked⟩ :=
    tracked_undoStep undoable.toTracked tries once.later.1 window
  exact ⟨step, tracked, step.history ▸ writesOnce_rebase once⟩

/-- A run of undos of records that the history has: all succeed, in whatever order. -/
theorem undoable_undoAll [LawfulStore σ] {run : RollbackRun σ} {order : List String}
    (undoable : Undoable files run.history run.store) (untried : run.skipped = [])
    (among : order.Subperm (run.history.map (·.id))) {applied : List Patch}
    {errors modified : List String} (result : run.result = .ofParts applied [] errors modified)
    (window : Nat) :
    let last := undoAll window run order
    Undoable files last.history last.store ∧
      (order ++ last.history.map (·.id)).Perm (run.history.map (·.id)) ∧
        ∃ done modified, last.result = .ofParts (applied ++ done) [] errors modified ∧
          done.map (·.id) = order := by
  induction order generalizing run applied modified with
  | nil => exact ⟨undoable, .refl _, [], modified, by simpa [undoAll] using result, rfl⟩
  | cons id rest ih =>
    rcases List.mem_map.mp (among.subset List.mem_cons_self) with ⟨entry, listed, rfl⟩
    have latest : latestIndex? run.history run.skipped entry.id ≠ none := by
      rw [untried]
      exact latestIndex?_ne_none listed
    obtain ⟨index, latest⟩ := Option.ne_none_iff_exists'.mp latest
    rcases tries_of_latestIndex? latest with ⟨front, tried, later, tries⟩
    rcases undoable_undoStep undoable tries window with ⟨step, next⟩
    obtain ⟨done, sameId, reported⟩ := step.reported
    have ids : (run.history.map (·.id)).Perm
        (entry.id :: (undoStep window run entry.id).history.map (·.id)) := by
      rw [tries.history, step.history, List.map_append, List.map_append, map_id_rebase,
        List.map_cons, tries.id_eq]
      exact List.perm_middle
    have left := (List.subperm_cons entry.id).mp ((ids.subperm_left).mp among)
    rw [result, PatchApplyResult.append_ofParts] at reported
    obtain ⟨last, perm, dones, modified', final, order⟩ :=
      ih next (by simp [step.skipped, untried]) left reported
    refine ⟨last, ?_, done :: dones, modified', ?_, ?_⟩
    · exact (perm.cons entry.id).trans ids.symm
    · simpa [undoAll] using final
    · rw [List.map_cons, order, sameId, tries.id_eq]

/-! ## Rollbacks one after another -/

theorem selected_subperm (history : List Patch) (ids : Option (List String)) :
    (selected history ids).reverse.Subperm (history.map (·.id)) := by
  refine (List.reverse_perm _).subperm.trans ?_
  cases ids with
  | none => exact List.Subperm.refl _
  | some ids => exact (List.filter_sublist.map _).subperm

theorem unknownErrors_of_known {history : List Patch} {ids : List String}
    (known : ∀ id ∈ ids, ∃ entry ∈ history, entry.id = id) :
    unknownErrors history (some ids) = [] := by
  simp only [unknownErrors, List.map_eq_nil_iff, List.filter_eq_nil_iff]
  intro id mem
  rcases known id mem with ⟨entry, listed, same⟩
  simp only [Bool.not_eq_true', Bool.not_eq_false, List.any_eq_true, beq_iff_eq]
  exact ⟨entry, listed, same⟩

def rollbackEach (engine : PatchEngine) (store : σ) (calls : List (List String)) :
    PatchEngine × σ :=
  calls.foldl
    (fun (engine, store) ids =>
      let (engine, store, _) := engine.rollback store (some ids)
      (engine, store))
    (engine, store)

theorem undoable_rollbackEach [LawfulStore σ] {engine : PatchEngine} {store : σ}
    (undoable : Undoable files engine.history store) (calls : List (List String)) :
    Undoable files (rollbackEach engine store calls).1.history
      (rollbackEach engine store calls).2 := by
  induction calls generalizing engine store with
  | nil => exact undoable
  | cons ids rest ih =>
    have all := @undoable_undoAll _ _ _ _ (beginRollback engine store (some ids)) _ undoable rfl
      (selected_subperm engine.history (some ids)) _ _ _ rfl engine.driftWindow
    exact @ih (engine.rollback store (some ids)).1 _ all.1

theorem undoable_applyBatches [LawfulStore σ] {engine after : PatchEngine} {store present : σ}
    {batches : List (List Patch)} {applied : List Patch} (begins : Begins engine store)
    (built : engine.applyBatches store batches = (after, present, applied))
    (short : applied.length ≤ engine.historyLimit)
    (codes : ∀ entry ∈ applied, Text.IsLine entry.newCode)
    (edits : ∀ entry ∈ applied, entry.isInsertion = false) (once : WritesOnce applied) :
    Undoable (SourceStore.read store) after.history present := by
  obtain ⟨forgotten, split, tracked⟩ :=
    tracked_applyBatches begins built codes edits
  have history : after.history = applied := by
    have limit : engine.history.length ≤ engine.historyLimit := by simp [begins.history]
    have recorded := congrArg PatchEngine.history (applyBatches_engine limit store batches)
    rw [built] at recorded
    simpa [begins.history, takeLast_of_length_le short] using recorded
  have nothing : forgotten = [] := by simpa [history] using split
  rw [nothing, filesAfter_nil begins.whole] at tracked
  exact ⟨tracked, history ▸ once⟩

/-- Undo in any order. After any number of rollbacks of selected entries, and after each single
undo of one more, nothing has failed, and replaying the records that are left on the first lines of
a file gives its present lines. A file without records is as it was at first. -/
theorem rollback_any_order [LawfulStore σ] {engine after : PatchEngine} {store present : σ}
    {batches : List (List Patch)} {applied : List Patch} (begins : Begins engine store)
    (built : engine.applyBatches store batches = (after, present, applied))
    (short : applied.length ≤ engine.historyLimit)
    (codes : ∀ entry ∈ applied, Text.IsLine entry.newCode)
    (edits : ∀ entry ∈ applied, entry.isInsertion = false) (once : WritesOnce applied)
    (calls : List (List String)) (ids : List String) (count : Nat) :
    let now := rollbackEach after present calls
    let order := (selected now.1.history (some ids)).reverse.take count
    let run := rollbackSteps now.1 now.2 ids count
    run.result.patchesFailed = [] ∧ run.result.patchesApplied.map (·.id) = order ∧
      ((∀ id ∈ ids, ∃ entry ∈ now.1.history, entry.id = id) → run.result.success = true) ∧
      (order ++ run.history.map (·.id)).Perm (now.1.history.map (·.id)) ∧
      (∀ path content, SourceStore.read store path = .ok content →
        ∃ lines, replay? path run.history (Text.lines content) = some lines ∧
          SourceStore.read run.store path = .ok (Text.ofLines lines)) ∧
      ∀ path, (∀ entry ∈ run.history, entry.path ≠ path) →
        SourceStore.read run.store path = SourceStore.read store path := by
  intro now order run
  have undoable : Undoable (SourceStore.read store) now.1.history now.2 :=
    undoable_rollbackEach
      (undoable_applyBatches begins built short codes edits once) calls
  have among : order.Subperm (now.1.history.map (·.id)) :=
    (List.take_sublist _ _).subperm.trans (selected_subperm _ _)
  obtain ⟨last, left, done, modified, result, ids'⟩ :=
    @undoable_undoAll _ _ _ _ (beginRollback now.1 now.2 (some ids)) order undoable rfl among
      [] (unknownErrors now.1.history (some ids)) [] rfl now.1.driftWindow
  have result : run.result = .ofParts done [] (unknownErrors now.1.history (some ids)) modified :=
    result
  refine ⟨?_, ?_, fun known => ?_, left, last.replays.holds, fun path apart =>
    last.replays.read_of_path_ne apart⟩
  · rw [result]; rfl
  · rw [result]; exact ids'
  · rw [result, unknownErrors_of_known known]; rfl

/-- Two deletions and two replacements: the first deletion is undone, then the second replacement,
and what is left is the first replacement, a line further up or down, and the second deletion. -/
theorem rollback_any_order_deletion_first :
    let store : MemoryStore := { files := [("a.ts", "one\ntwo\n  three\nfour\n")] }
    let batches : List (List Patch) :=
      [[⟨"p1", "a.ts", 1, "one", "", "", true, none, none⟩,
          ⟨"p2", "a.ts", 3, "three", "tres", "", true, none, none⟩],
        [⟨"p3", "a.ts", 1, "two", "", "", true, none, none⟩,
          ⟨"p4", "a.ts", 3, "four", "cuatro", "", true, none, none⟩]]
    let session := applyBatches ⟨[], 500, 5⟩ store batches
    let now := rollbackEach session.1 session.2.1 [["p1"]]
    let run := rollbackSteps now.1 now.2 ["p2", "p4"] 1
    SourceStore.read session.2.1 "a.ts" = .ok "  tres\ncuatro\n" ∧
      run.result.patchesFailed = [] ∧ run.history.map (·.id) = ["p2", "p3"] ∧
        ∃ lines, replay? "a.ts" run.history ["one", "two", "  three", "four"] = some lines ∧
          SourceStore.read run.store "a.ts" = .ok (Text.ofLines lines) := by
  intro store batches session
  have begins : Begins ⟨[], 500, 5⟩ store :=
    ⟨rfl, MemoryStore.acceptsWrites rfl, MemoryStore.holdsLineTexts (by decide)⟩
  have anyOrder := @rollback_any_order MemoryStore _ _ ⟨[], 500, 5⟩ session.1 store session.2.1
    batches session.2.2 begins
    (Prod.ext rfl (Prod.ext rfl rfl)) (by decide) (by decide)
    (by decide) (by decide) [["p1"]] ["p2", "p4"] 1
  dsimp only at anyOrder ⊢
  rcases anyOrder with ⟨failed, -, -, -, files, -⟩
  have last := files "a.ts" "one\ntwo\n  three\nfour\n" (by decide)
  have first : Text.lines "one\ntwo\n  three\nfour\n" = ["one", "two", "  three", "four"] := by
    decide
  rw [first] at last
  exact ⟨by decide, failed, by decide, last⟩

end PatchEngine

end ChangeImpact
