import ChangeImpact.Proofs.Rollback.Attempts

/-!
# What is reported of a rollback

Each entry selected is reported once, as undone or as failed, in the order in which they are tried.
An identifier that the history does not have costs an error and changes nothing else.
-/

namespace ChangeImpact

namespace PatchEngine

open PatchApplyResult (Accounts)

variable {σ : Type} [SourceStore σ] {window : Nat} {run : RollbackRun σ}

/-! ## The reports -/

theorem accounts_of_attempt? {id : String} {attempt : Attempt}
    (made : attempt? window run id = some attempt) : Accounts [attempt.entry] attempt.report := by
  cases latest : latestIndex? run.history run.skipped id with
  | none => simp [attempt?, latest] at made
  | some index =>
    obtain ⟨front, entry, later, tries⟩ := tries_of_latestIndex? latest
    obtain rfl := Option.some.inj ((attempt?_of_tries tries window).symm.trans made)
    rw [applyAll_singleton]
    have outcome : FileOutcome run.store entry.path [inverseNow entry later]
        (applyToFile window .undo run.store entry.path [inverseNow entry later]) :=
      applyToFile_outcome _ _ _
    have accounts := PatchApplyResult.accounts_empty.append outcome.accounts
    exact accounts.of_keys (.refl _)

theorem accounts_of_mem_attempts {ids : List String} {attempt : Attempt}
    (mem : attempt ∈ attempts window run ids) : Accounts [attempt.entry] attempt.report := by
  induction ids generalizing run with
  | nil => simp [attempts] at mem
  | cons id ids ih =>
    rcases List.mem_append.mp mem with first | rest
    · exact accounts_of_attempt? (Option.mem_toList.mp first)
    · exact ih rest

theorem ids_of_accounts {patch : Patch} {result : PatchApplyResult}
    (accounts : Accounts [patch] result) :
    result.patchesApplied.map (·.id) = (if result.patchesApplied.isEmpty then [] else [patch.id]) ∧
      result.patchesFailed.map (·.id) =
        if result.patchesApplied.isEmpty then [patch.id] else [] := by
  have ids : (result.patchesApplied.map (·.id) ++ result.patchesFailed.map (·.id)).Perm
      [patch.id] := by
    simpa [Patch.key, Function.comp_def] using accounts.listed.map Prod.fst
  have single := List.perm_singleton.mp ids
  cases applied : result.patchesApplied with
  | nil => simpa [applied] using single
  | cons first rest => simpa [applied, and_assoc] using single

theorem reported_attempts {tried : List Attempt}
    (accounts : ∀ attempt ∈ tried, Accounts [attempt.entry] attempt.report) :
    (tried.flatMap (·.report.patchesApplied)).map (·.id) =
        (tried.filter (·.undone)).map (·.entry.id) ∧
      (tried.flatMap (·.report.patchesFailed)).map (·.id) =
        (tried.filter (!·.undone)).map (·.entry.id) ∧
      tried.flatMap (·.report.errors) =
        (tried.flatMap (·.report.patchesFailed)).map Patch.errorLine := by
  induction tried with
  | nil => simp
  | cons attempt rest ih =>
    obtain ⟨applied, failed, errors⟩ :=
      ih fun other mem => accounts other (List.mem_cons_of_mem _ mem)
    have own := accounts attempt List.mem_cons_self
    obtain ⟨ownApplied, ownFailed⟩ := ids_of_accounts own
    refine ⟨?_, ?_, ?_⟩
    · rw [List.flatMap_cons, List.map_append, applied, ownApplied]
      cases nothing : attempt.report.patchesApplied.isEmpty <;> simp [Attempt.undone, nothing]
    · rw [List.flatMap_cons, List.map_append, failed, ownFailed]
      cases nothing : attempt.report.patchesApplied.isEmpty <;> simp [Attempt.undone, nothing]
    · rw [List.flatMap_cons, List.flatMap_cons, List.map_append, errors, own.errors]

theorem perm_reported_attempts {tried : List Attempt}
    (accounts : ∀ attempt ∈ tried, Accounts [attempt.entry] attempt.report) :
    ((tried.flatMap (·.report.patchesApplied) ++ tried.flatMap (·.report.patchesFailed)).map
      (·.id)).Perm (tried.map (·.entry.id)) := by
  obtain ⟨applied, failed, -⟩ := reported_attempts accounts
  rw [List.map_append, applied, failed, ← List.map_append]
  exact (List.filter_append_perm _ tried).map _

/-! ## The entries selected -/

def isSelected : Option (List String) → String → Bool
  | none, _ => true
  | some ids, id => ids.contains id

def unknownIds (history : List Patch) (ids : Option (List String)) : List String :=
  (ids.getD []).filter fun id => !history.any (·.id == id)

def knownIds (history : List Patch) (ids : Option (List String)) : Option (List String) :=
  ids.map fun ids => ids.filter fun id => history.any (·.id == id)

theorem selected_eq (history : List Patch) (ids : Option (List String)) :
    selected history ids = (history.filter fun entry => isSelected ids entry.id).map (·.id) := by
  cases ids with
  | none => simp [selected, isSelected]
  | some ids => rfl

theorem unknownErrors_eq (history : List Patch) (ids : Option (List String)) :
    unknownErrors history ids =
      (unknownIds history ids).map (· ++ ": not in patch history") := by
  cases ids <;> rfl

theorem unknownIds_knownIds (history : List Patch) (ids : Option (List String)) :
    unknownIds history (knownIds history ids) = [] := by
  cases ids with
  | none => rfl
  | some ids => simp [unknownIds, knownIds]

theorem selected_knownIds (history : List Patch) (ids : Option (List String)) :
    selected history (knownIds history ids) = selected history ids := by
  cases ids with
  | none => rfl
  | some ids =>
    have same : history.filter (fun patch =>
          (ids.filter fun id => history.any (·.id == id)).contains patch.id) =
        history.filter fun patch => ids.contains patch.id := by
      refine List.filter_congr fun patch mem => ?_
      have listed : history.any (·.id == patch.id) = true :=
        List.any_eq_true.mpr ⟨patch, mem, beq_self_eq_true _⟩
      simp [listed]
    exact congrArg (List.map (·.id)) same

omit [SourceStore σ] in
theorem settled_beginRollback (engine : PatchEngine) (store : σ) (ids : Option (List String)) :
    Settled (isSelected ids) engine.history (beginRollback engine store ids) [] where
  history := (List.append_nil _).symm
  beyond _ mem := absurd mem List.not_mem_nil
  passed _ _ place := by simp at place

def rollbackAttempts (engine : PatchEngine) (store : σ) (ids : Option (List String)) :
    List Attempt :=
  attempts engine.driftWindow (beginRollback engine store ids) (selected engine.history ids).reverse

theorem ends_rollback (engine : PatchEngine) (store : σ) (ids : Option (List String)) :
    Ends (isSelected ids) engine.history [] (engine.rollbackAttempts store ids)
      (engine.rollback store ids).1.history := by
  have ends := ends_undoAll (settled_beginRollback engine store ids) engine.driftWindow
  rw [← selected_eq] at ends
  exact ends

theorem result_rollback (engine : PatchEngine) (store : σ) (ids : Option (List String)) :
    let tried := engine.rollbackAttempts store ids
    (engine.rollback store ids).2.2 =
      .ofParts (tried.flatMap (·.report.patchesApplied)) (tried.flatMap (·.report.patchesFailed))
        ((unknownIds engine.history ids).map (· ++ ": not in patch history") ++
          (tried.flatMap (·.report.patchesFailed)).map Patch.errorLine)
        ((tried.flatMap (·.report.filesModified)).foldl PatchApplyResult.addFile []) := by
  intro tried
  have final := (undoAll_withResult engine.driftWindow (beginRollback engine store ids)
    (beginRollback engine store ids).result (selected engine.history ids).reverse).2
  have result : (engine.rollback store ids).2.2 =
      (tried.map (·.report)).foldl .append (beginRollback engine store ids).result :=
    congrArg RollbackRun.result final
  have start : (beginRollback engine store ids).result = .ofParts [] []
      ((unknownIds engine.history ids).map (· ++ ": not in patch history")) [] :=
    congrArg (PatchApplyResult.ofParts [] [] · []) (unknownErrors_eq engine.history ids)
  have errors : tried.flatMap (·.report.errors) =
      (tried.flatMap (·.report.patchesFailed)).map Patch.errorLine :=
    (reported_attempts fun attempt mem => accounts_of_mem_attempts mem).2.2
  rw [result, start, PatchApplyResult.foldl_append_ofParts]
  simp only [List.nil_append, List.flatMap_map, errors]

/-- The identifiers that the history does not have change nothing but the errors. -/
theorem rollback_knownIds (engine : PatchEngine) (store : σ) (ids : Option (List String)) :
    (engine.rollback store (knownIds engine.history ids)).1 = (engine.rollback store ids).1 ∧
      (engine.rollback store (knownIds engine.history ids)).2.1 = (engine.rollback store ids).2.1 ∧
        engine.rollbackAttempts store (knownIds engine.history ids) =
          engine.rollbackAttempts store ids := by
  have start : beginRollback engine store (knownIds engine.history ids) =
      { beginRollback engine store ids with
        result := (beginRollback engine store (knownIds engine.history ids)).result } := rfl
  obtain ⟨tried, final⟩ := undoAll_withResult engine.driftWindow (beginRollback engine store ids)
    (beginRollback engine store (knownIds engine.history ids)).result
    (selected engine.history ids).reverse
  rw [← start] at tried final
  refine ⟨?_, ?_, ?_⟩
  · simp only [rollback, selected_knownIds, final]
  · simp only [rollback, selected_knownIds, final]
  · simpa only [rollbackAttempts, selected_knownIds] using tried

theorem map_id_rollbackAttempts (engine : PatchEngine) (store : σ) (ids : Option (List String)) :
    (engine.rollbackAttempts store ids).map (·.entry.id) =
      (selected engine.history ids).reverse := by
  have inOrder := congrArg (List.map fun old => old.1.id) (ends_rollback engine store ids).inOrder
  have chosen : engine.history.filter (fun entry => isSelected ids entry.id) =
      (engine.history.zipIdx.filter fun old => isSelected ids old.1.id).map Prod.fst := by
    conv_lhs => rw [← List.zipIdx_map_fst 0 engine.history, List.filter_map]
    rfl
  rw [selected_eq, chosen]
  simpa [Function.comp_def] using inOrder

/-- Accounting of a rollback, whatever the store refuses. Every selected entry is tried once, the
newest first. Those that could be undone are taken out of the history, and the others stay as they
were, at most with their lines counted anew. Each entry tried is reported once, each failed one with
its error, and each identifier that the history does not have costs an error and nothing else. -/
theorem rollback_accounts (engine : PatchEngine) (store : σ) (ids : Option (List String)) :
    let outcome := engine.rollback store ids
    let result := outcome.2.2
    let tried := engine.rollbackAttempts store ids
    let unknown := unknownIds engine.history ids
    tried.map (fun attempt => (attempt.entry, attempt.place)) =
      (engine.history.zipIdx.filter fun old => isSelected ids old.1.id).reverse ∧
    (outcome.1 = { engine with history := outcome.1.history } ∧
      List.Forall₂ (fun now old => LeftBy (tried.filter (·.place < old.2)) now old.1)
        outcome.1.history (remaining engine.history tried)) ∧
    (result.patchesApplied = tried.flatMap (·.report.patchesApplied) ∧
      result.patchesFailed = tried.flatMap (·.report.patchesFailed) ∧
      result.patchesApplied.map (·.id) = (tried.filter (·.undone)).map (·.entry.id) ∧
      result.patchesFailed.map (·.id) = (tried.filter (!·.undone)).map (·.entry.id) ∧
      ((result.patchesApplied ++ result.patchesFailed).map (·.id)).Perm
        (selected engine.history ids)) ∧
    (result.errors = unknown.map (· ++ ": not in patch history") ++
        result.patchesFailed.map Patch.errorLine ∧
      engine.rollback store (knownIds engine.history ids) =
        (outcome.1, outcome.2.1, .ofParts result.patchesApplied result.patchesFailed
          (result.patchesFailed.map Patch.errorLine) result.filesModified)) ∧
    (result.success = true ↔ result.patchesFailed = [] ∧ unknown = []) ∧
    result.filesModified.Nodup := by
  intro outcome result tried unknown
  have ends := ends_rollback engine store ids
  have reported : result = _ := result_rollback engine store ids
  obtain ⟨applied, failed, -⟩ :=
    reported_attempts fun attempt (mem : attempt ∈ tried) => accounts_of_mem_attempts mem
  have listedApplied := congrArg PatchApplyResult.patchesApplied reported
  have listedFailed := congrArg PatchApplyResult.patchesFailed reported
  refine ⟨ends.inOrder, ⟨rfl, ?_⟩, ⟨listedApplied, listedFailed, ?_, ?_, ?_⟩, ⟨?_, ?_⟩, ?_, ?_⟩
  · obtain ⟨kept, rest, history, left, none⟩ := ends.left
    obtain rfl := List.forall₂_nil_right_iff.mp none
    rw [List.append_nil] at history
    exact history ▸ left
  · exact (congrArg (List.map (·.id)) listedApplied).trans applied
  · exact (congrArg (List.map (·.id)) listedFailed).trans failed
  · have ids : (tried.map (·.entry.id)).Perm (selected engine.history ids) := by
      rw [map_id_rollbackAttempts]
      exact List.reverse_perm _
    rw [listedApplied, listedFailed]
    exact (perm_reported_attempts fun _ mem => accounts_of_mem_attempts mem).trans ids
  · rw [listedFailed]
    exact congrArg PatchApplyResult.errors reported
  · obtain ⟨engine', store', same⟩ := rollback_knownIds engine store ids
    have known := result_rollback engine store (knownIds engine.history ids)
    rw [same, unknownIds_knownIds] at known
    refine Prod.ext engine' (Prod.ext store' (known.trans ?_))
    rw [reported]
    rfl
  · rw [reported]
    simp only [PatchApplyResult.ofParts, Bool.and_eq_true, List.isEmpty_iff,
      List.append_eq_nil_iff, List.map_eq_nil_iff]
    constructor
    · rintro ⟨failed, known, -⟩
      exact ⟨failed, known⟩
    · rintro ⟨failed, known⟩
      exact ⟨failed, known, failed⟩
  · rw [reported]
    exact PatchApplyResult.nodup_foldl_addFile List.nodup_nil _

/-- Of three entries with one identifier, the second one is of a file that does not exist. -/
example :
    let entry (path : String) : Patch := ⟨"p1", path, 1, "one", "two", "", true, some true, none⟩
    let engine : PatchEngine := ⟨[entry "a.ts", entry "b.ts", entry "c.ts"], 3, 5⟩
    let store : MemoryStore := { files := [("a.ts", "two\n"), ("c.ts", "two\n")] }
    let ids := some ["p2", "p1"]
    (engine.rollbackAttempts store ids).map (fun attempt => (attempt.place, attempt.undone)) =
        [(2, true), (1, false), (0, true)] ∧
      (engine.rollback store ids).1.history = [entry "b.ts"] := by
  decide

end PatchEngine

end ChangeImpact
