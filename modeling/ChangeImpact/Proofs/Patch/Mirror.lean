import ChangeImpact.Proofs.Ascending
import ChangeImpact.Proofs.Patch.Isolation
import ChangeImpact.Proofs.Patch.Process

/-!
# Engines on stores that mirror each other

Two stores may differ in files that nobody names. If they cannot be told apart by the files that are
named, an engine has the same results on both and leaves stores that cannot be told apart either.
-/

namespace ChangeImpact

variable {σ : Type} [SourceStore σ]

/-- A relation of stores that no reading of a named file, and no writing of one that can be read,
tells apart. -/
structure SourceStore.Mirrors (named : String → Prop) (alike : σ → σ → Prop) : Prop where
  read : ∀ {first second : σ} {path : String}, alike first second → named path →
    SourceStore.read first path = SourceStore.read second path
  write : ∀ {first second : σ} {path old : String} (text : String), alike first second →
    named path → SourceStore.read first path = .ok old →
    (∃ cause, SourceStore.write first path text = .error cause ∧
      SourceStore.write second path text = .error cause) ∨
    ∃ after after', SourceStore.write first path text = .ok after ∧
      SourceStore.write second path text = .ok after' ∧ alike after after'

def EngineCall.Names (named : String → Prop) : EngineCall → Prop
  | .apply patches => ∀ patch ∈ patches, named patch.path
  | .rollback _ => True

instance (named : String → Prop) [DecidablePred named] (call : EngineCall) :
    Decidable (call.Names named) :=
  match call with
  | .apply patches => inferInstanceAs (Decidable (∀ patch ∈ patches, named patch.path))
  | .rollback _ => .isTrue trivial

structure CallOutcome.Alike (alike : σ → σ → Prop) (first second : CallOutcome σ) : Prop where
  result : first.result = second.result
  history : first.history = second.history
  store : alike first.store second.store

variable {named : String → Prop} {alike : σ → σ → Prop} {first second : σ}

section

variable (mirrors : SourceStore.Mirrors named alike)
include mirrors

/-! ## Applying patches -/

theorem applyToFile_alike (same : alike first second) {path : String} (name : named path)
    (window : Nat) (mode : EditMode) (patches : List Patch) :
    (applyToFile window mode first path patches).2 =
        (applyToFile window mode second path patches).2 ∧
      alike (applyToFile window mode first path patches).1
        (applyToFile window mode second path patches).1 := by
  have read := mirrors.read same name
  unfold applyToFile
  cases readable : SourceStore.read first path with
  | error cause =>
    rw [readable] at read
    simp only [← read]
    exact ⟨trivial, same⟩
  | ok content =>
    rw [readable] at read
    simp only [← read]
    generalize EditRun.run window mode (Document.parse content) patches = run
    cases run.applied.isEmpty with
    | true => exact ⟨rfl, same⟩
    | false =>
      rcases mirrors.write run.doc.render same name readable with
        ⟨cause, refused, refused'⟩ | ⟨after, after', written, written', next⟩
      · simp only [refused, refused', Bool.false_eq_true, if_false]
        exact ⟨trivial, same⟩
      · simp only [written, written', Bool.false_eq_true, if_false]
        exact ⟨trivial, next⟩

theorem applyAll_alike (same : alike first second) {patches : List Patch}
    (names : ∀ patch ∈ patches, named patch.path) (window : Nat) (mode : EditMode) :
    (applyAll window mode first patches).2 = (applyAll window mode second patches).2 ∧
      alike (applyAll window mode first patches).1 (applyAll window mode second patches).1 := by
  have listed : ∀ path ∈ Ascending.ofList (patches.map (·.path)), named path := by
    intro path mem
    obtain ⟨patch, among, rfl⟩ := List.mem_map.mp (Ascending.mem_ofList.mp mem)
    exact names patch among
  unfold applyAll
  generalize Ascending.ofList (patches.map (·.path)) = paths at listed
  generalize PatchApplyResult.empty = result
  induction paths generalizing first second result with
  | nil => exact ⟨rfl, same⟩
  | cons path rest ih =>
    obtain ⟨results, stores⟩ := applyToFile_alike mirrors same (listed path List.mem_cons_self)
      window mode (filePatches mode patches path)
    simp only [List.foldl_cons, results]
    exact ih stores (fun other mem => listed other (List.mem_cons_of_mem _ mem)) _

end

/-- What is recorded of applied patches is of files that the patches name. -/
theorem named_of_applied {patches : List Patch} (names : ∀ patch ∈ patches, named patch.path)
    (window : Nat) (store : σ) :
    ∀ patch ∈ (applyAll window .apply store patches).2.patchesApplied, named patch.path := by
  intro patch mem
  have recorded : (applyAll window .apply store patches).2.patchesApplied =
      (filesLog window patches store (Ascending.ofList (patches.map (·.path)))).map (·.done) :=
    map_done_filesLog .empty
  rw [recorded] at mem
  obtain ⟨edit, logged, rfl⟩ := List.mem_map.mp mem
  obtain ⟨among, next, made⟩ := mem_filesLog logged
  have path : edit.done.path = edit.patch.path := congrArg Prod.snd (key_of_edit made)
  exact path ▸ names edit.patch among

namespace PatchEngine

def Names (named : String → Prop) (history : List Patch) : Prop :=
  ∀ patch ∈ history, named patch.path

/-! ## Rolling patches back -/

/-- Two rollbacks under way that differ in their stores only, which are alike. -/
structure RollbackRun.Alike (alike : σ → σ → Prop) (first second : RollbackRun σ) : Prop where
  history : first.history = second.history
  skipped : first.skipped = second.skipped
  result : first.result = second.result
  store : alike first.store second.store

theorem names_rebase {undone : Patch} {front later : List Patch}
    (names : Names named (front ++ undone :: later)) :
    Names named (front ++ rebase undone later) := by
  intro moved mem
  obtain ⟨entry, among, same⟩ := mem_append_rebase mem
  rw [same]
  exact names entry among

theorem names_undoStep {run : RollbackRun σ} (names : Names named run.history) (window : Nat)
    (id : String) : Names named (undoStep window run id).history := by
  cases latest : latestIndex? run.history run.skipped id with
  | none => rwa [undoStep_of_none latest]
  | some index =>
    obtain ⟨front, entry, later, tries⟩ := tries_of_latestIndex? latest
    rw [undoStep_of_tries tries]
    dsimp only
    split
    · exact names
    · exact names_rebase (tries.history ▸ names)

theorem undoStep_alike (mirrors : SourceStore.Mirrors named alike) {run run' : RollbackRun σ}
    (same : run.Alike alike run') (names : Names named run.history) (window : Nat) (id : String) :
    (undoStep window run id).Alike alike (undoStep window run' id) := by
  obtain ⟨history, skipped, result, stores⟩ := same
  cases latest : latestIndex? run.history run.skipped id with
  | none =>
    have latest' : latestIndex? run'.history run'.skipped id = none := by
      rw [← history, ← skipped, latest]
    rw [undoStep_of_none latest, undoStep_of_none latest']
    exact ⟨history, skipped, result, stores⟩
  | some index =>
    obtain ⟨front, entry, later, tries⟩ := tries_of_latestIndex? latest
    have tries' : Tries run' id front entry later :=
      ⟨history ▸ tries.history, by rw [← history, ← skipped]; exact tries.latest⟩
    have path : named entry.path := names entry (by simp [tries.history])
    have only : ∀ patch ∈ [inverseNow entry later], named patch.path := by
      intro patch mem
      rw [List.mem_singleton.mp mem]
      exact path
    obtain ⟨steps, after⟩ := applyAll_alike mirrors stores only window .undo
    rw [undoStep_of_tries tries, undoStep_of_tries tries']
    dsimp only
    rw [steps, result, skipped]
    split
    · exact ⟨history, rfl, rfl, after⟩
    · exact ⟨rfl, rfl, rfl, after⟩

theorem undoAll_alike (mirrors : SourceStore.Mirrors named alike) {run run' : RollbackRun σ}
    (same : run.Alike alike run') (names : Names named run.history) (window : Nat)
    (ids : List String) :
    (undoAll window run ids).Alike alike (undoAll window run' ids) ∧
      Names named (undoAll window run ids).history := by
  induction ids generalizing run run' with
  | nil => exact ⟨same, names⟩
  | cons id ids ih =>
    exact ih (undoStep_alike mirrors same names window id) (names_undoStep names window id)

/-! ## Calls -/

/-- A call on each of two stores that are alike: the same engine and result, and stores that are
alike. -/
theorem take_alike (mirrors : SourceStore.Mirrors named alike) (same : alike first second)
    {engine : PatchEngine} (names : Names named engine.history) {call : EngineCall}
    (listed : call.Names named) :
    (engine.take first call).1 = (engine.take second call).1 ∧
      (engine.take first call).2.2 = (engine.take second call).2.2 ∧
      alike (engine.take first call).2.1 (engine.take second call).2.1 ∧
      Names named (engine.take first call).1.history := by
  cases call with
  | apply patches =>
    obtain ⟨results, stores⟩ := applyAll_alike mirrors same listed engine.driftWindow .apply
    simp only [take, apply]
    refine ⟨by rw [results], results, stores, fun patch mem => ?_⟩
    rcases mem_history_record mem with old | new
    · exact names patch old
    · exact named_of_applied listed _ _ patch new
  | rollback ids =>
    have start : (beginRollback engine first ids).Alike alike (beginRollback engine second ids) :=
      ⟨rfl, rfl, rfl, same⟩
    obtain ⟨⟨history, -, result, stores⟩, kept⟩ := undoAll_alike mirrors start names
      engine.driftWindow (selected engine.history ids).reverse
    exact ⟨by simp only [take, rollback, history], result, stores, kept⟩

theorem takeAll_alike (mirrors : SourceStore.Mirrors named alike) (same : alike first second)
    {engine : PatchEngine} (names : Names named engine.history) {calls : List EngineCall}
    (listed : ∀ call ∈ calls, call.Names named) :
    (engine.takeAll first calls).1 = (engine.takeAll second calls).1 ∧
      alike (engine.takeAll first calls).2.1 (engine.takeAll second calls).2.1 ∧
      List.Forall₂ (CallOutcome.Alike alike) (engine.takeAll first calls).2.2
        (engine.takeAll second calls).2.2 ∧
      Names named (engine.takeAll first calls).1.history := by
  induction calls generalizing engine first second with
  | nil => exact ⟨rfl, same, .nil, names⟩
  | cons call rest ih =>
    obtain ⟨engines, results, stores, kept⟩ :=
      take_alike mirrors same names (listed call List.mem_cons_self)
    obtain ⟨last, final, outcomes, namesLast⟩ :=
      ih stores kept fun other mem => listed other (List.mem_cons_of_mem _ mem)
    simp only [takeAll, ← engines]
    exact ⟨last, final, .cons ⟨results, rfl, stores⟩ outcomes, namesLast⟩

end PatchEngine

end ChangeImpact
