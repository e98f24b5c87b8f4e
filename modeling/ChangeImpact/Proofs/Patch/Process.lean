import ChangeImpact.Proofs.Patch.Session
import ChangeImpact.Proofs.Rollback.Step

/-!
# One process after another

An engine takes calls to apply patches and to roll patches back. Its history never has more patches
than the limit, so that an engine that takes the history up is the same engine: calls cut into
processes that hand the history over have the outcome of one engine that takes them all.
-/

namespace ChangeImpact

inductive EngineCall where
  | apply (patches : List Patch)
  | rollback (ids : Option (List String))
  deriving DecidableEq, Repr

structure CallOutcome (σ : Type) where
  result : PatchApplyResult
  history : List Patch
  store : σ

namespace PatchEngine

variable {σ : Type} [SourceStore σ]

def take (engine : PatchEngine) (store : σ) : EngineCall → PatchEngine × σ × PatchApplyResult
  | .apply patches => engine.apply store patches
  | .rollback ids => engine.rollback store ids

def takeAll (engine : PatchEngine) (store : σ) :
    List EngineCall → PatchEngine × σ × List (CallOutcome σ)
  | [] => (engine, store, [])
  | call :: rest =>
    let (engine, store, result) := engine.take store call
    let (last, final, outcomes) := takeAll engine store rest
    (last, final, ⟨result, engine.history, store⟩ :: outcomes)

/-- Takes calls in processes. Each builds an engine of the same configuration, takes up the history
that the one before saved, and saves its own; the history saved last is given with the store and
what there was after each call. -/
def takeInProcesses (config : ProjectConfig) (saved : List Patch) (store : σ) :
    List (List EngineCall) → List Patch × σ × List (CallOutcome σ)
  | [] => (saved, store, [])
  | calls :: rest =>
    let (engine, store, outcomes) := (ofHistory config saved).takeAll store calls
    let (last, final, later) := takeInProcesses config engine.history store rest
    (last, final, outcomes ++ later)

theorem takeAll_append (engine : PatchEngine) (store : σ) (front back : List EngineCall) :
    engine.takeAll store (front ++ back) =
      let (middle, between, outcomes) := engine.takeAll store front
      let (last, final, later) := middle.takeAll between back
      (last, final, outcomes ++ later) := by
  induction front generalizing engine store with
  | nil => rfl
  | cons call front ih =>
    simp only [List.cons_append, takeAll, ih]

/-! ## The history stays within the limit -/

/-- The engine has the settings of a configuration, and a history within its limit. -/
structure Within (config : ProjectConfig) (engine : PatchEngine) : Prop where
  limit : engine.historyLimit = config.historyLimit
  window : engine.driftWindow = config.driftWindow
  fits : engine.history.length ≤ config.historyLimit

theorem ofHistory_eq (config : ProjectConfig) (saved : List Patch) :
    ofHistory config saved =
      ⟨takeLast config.historyLimit saved, config.historyLimit, config.driftWindow⟩ :=
  record_of_fits saved (Nat.zero_le _)

theorem within_ofHistory (config : ProjectConfig) (saved : List Patch) :
    (ofHistory config saved).Within config := by
  rw [ofHistory_eq]
  exact ⟨rfl, rfl, length_takeLast_le _ _⟩

/-- An engine that takes up the history of another one, of the same configuration, is that one. -/
theorem Within.ofHistory_history {config : ProjectConfig} {engine : PatchEngine}
    (within : engine.Within config) : ofHistory config engine.history = engine := by
  obtain ⟨history, limit, window⟩ := engine
  obtain ⟨rfl, rfl, fits⟩ := within
  simp only at fits
  rw [ofHistory_eq, takeLast_of_length_le fits]

theorem length_rebase (undone : Patch) (later : List Patch) :
    (rebase undone later).length = later.length := by
  have ids := congrArg List.length (map_id_rebase undone later)
  rwa [List.length_map, List.length_map] at ids

theorem length_undoStep_le (window : Nat) (run : RollbackRun σ) (id : String) :
    (undoStep window run id).history.length ≤ run.history.length := by
  cases latest : latestIndex? run.history run.skipped id with
  | none => exact Nat.le_of_eq (by rw [undoStep_of_none latest])
  | some index =>
    obtain ⟨front, entry, later, tries⟩ := tries_of_latestIndex? latest
    rw [undoStep_of_tries tries]
    dsimp only
    split
    · exact Nat.le_refl _
    · simp only [tries.history, List.length_append, length_rebase, List.length_cons]
      omega

theorem length_undoAll_le (window : Nat) (run : RollbackRun σ) (ids : List String) :
    (undoAll window run ids).history.length ≤ run.history.length := by
  induction ids generalizing run with
  | nil => exact Nat.le_refl _
  | cons id ids ih => exact Nat.le_trans (ih _) (length_undoStep_le window run id)

theorem Within.take {config : ProjectConfig} {engine : PatchEngine} (within : engine.Within config)
    (store : σ) (call : EngineCall) : (engine.take store call).1.Within config := by
  obtain ⟨limit, window, fits⟩ := within
  cases call with
  | apply patches =>
    have recorded := apply_engine_of_fits (limit ▸ fits) store patches
    rw [PatchEngine.take, recorded]
    exact ⟨limit, window, limit ▸ length_takeLast_le _ _⟩
  | rollback ids => exact ⟨limit, window, Nat.le_trans (length_undoAll_le _ _ _) fits⟩

theorem Within.takeAll {config : ProjectConfig} {engine : PatchEngine}
    (within : engine.Within config) (store : σ) (calls : List EngineCall) :
    (engine.takeAll store calls).1.Within config := by
  induction calls generalizing engine store with
  | nil => exact within
  | cons call rest ih => exact ih (within.take store call) _

/-! ## Processes -/

/-- Calls cut into processes leave the engine and the store of one engine that takes them all, and
each call has the result, the history and the store that it has there. -/
theorem takeInProcesses_eq (config : ProjectConfig) (saved : List Patch) (store : σ)
    (processes : List (List EngineCall)) :
    let (last, final, outcomes) := takeInProcesses config saved store processes
    (ofHistory config last, final, outcomes) =
      (ofHistory config saved).takeAll store processes.flatten := by
  induction processes generalizing saved store with
  | nil => rfl
  | cons calls rest ih =>
    have same := ((within_ofHistory config saved).takeAll store calls).ofHistory_history
    have later := ih ((ofHistory config saved).takeAll store calls).1.history
      ((ofHistory config saved).takeAll store calls).2.1
    rw [same] at later
    simp only [takeInProcesses, List.flatten_cons, takeAll_append]
    rw [← later]

theorem takeInProcesses_history (config : ProjectConfig) (saved : List Patch) (store : σ)
    {processes : List (List EngineCall)} (some : processes ≠ []) :
    (takeInProcesses config saved store processes).1 =
      (ofHistory config (takeInProcesses config saved store processes).1).history := by
  induction processes generalizing saved store with
  | nil => exact absurd rfl some
  | cons calls rest ih =>
    cases rest with
    | nil =>
      have same := ((within_ofHistory config saved).takeAll store calls).ofHistory_history
      exact (congrArg PatchEngine.history same).symm
    | cons next rest => exact ih _ _ (List.cons_ne_nil next rest)

end PatchEngine

end ChangeImpact
