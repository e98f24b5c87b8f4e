import ChangeImpact.Proofs.Ascending
import ChangeImpact.Proofs.Classes
import ChangeImpact.Proofs.Patch.Accounting
import ChangeImpact.Proofs.Patch.Files
import ChangeImpact.Proofs.Patch.History
import Mathlib.Data.List.Perm.Basic

/-!
# Each file on its own

What becomes of the patches of one file depends on these patches and on this file alone. A batch on
several files is the batches on each of them side by side, all on the store as it was at first.
-/

namespace ChangeImpact

open PatchApplyResult (Accounts)

variable {σ : Type} [SourceStore σ] {window : Nat} {mode : EditMode} {store : σ} {path : String}

/-! ## One file on two stores -/

theorem applyToFile_of_agreeAt [LawfulStore σ] {first second : σ}
    (agree : SourceStore.AgreeAt path first second) (window : Nat) (mode : EditMode)
    (patches : List Patch) :
    (applyToFile window mode first path patches).2 =
        (applyToFile window mode second path patches).2 ∧
      SourceStore.read (applyToFile window mode first path patches).1 path =
        SourceStore.read (applyToFile window mode second path patches).1 path := by
  unfold applyToFile
  have sameRead := agree.read
  cases readable : SourceStore.read second path with
  | error cause =>
    rw [readable] at sameRead
    simp only [sameRead]
    exact ⟨trivial, readable.symm⟩
  | ok content =>
    rw [readable] at sameRead
    simp only [sameRead]
    generalize EditRun.run window mode (Document.parse content) patches = run
    by_cases nothing : run.applied = []
    · simp only [nothing, List.isEmpty_nil, if_true]
      exact ⟨trivial, sameRead.trans readable.symm⟩
    · simp only [List.isEmpty_iff, nothing, if_false]
      have refusal := agree.refusal run.doc.render
      cases left : SourceStore.write first path run.doc.render with
      | ok after =>
        cases right : SourceStore.write second path run.doc.render with
        | ok after' =>
          refine ⟨rfl, ?_⟩
          have written := LawfulStore.read_write sameRead left
          exact written.trans (LawfulStore.read_write readable right).symm
        | error cause => simp [left, right, Except.map] at refusal
      | error cause =>
        cases right : SourceStore.write second path run.doc.render with
        | ok after' => simp [left, right, Except.map] at refusal
        | error cause' =>
          obtain rfl : cause = cause' := by simpa [left, right, Except.map] using refusal
          exact ⟨rfl, sameRead.trans readable.symm⟩

theorem agreeAt_applyToFile [LawfulStore σ] {first second : σ} {other : String}
    (agree : SourceStore.AgreeAt path first second) (differ : path ≠ other) (window : Nat)
    (mode : EditMode) (patches : List Patch) :
    SourceStore.AgreeAt path (applyToFile window mode first other patches).1 second := by
  rcases (applyToFile_outcome first other patches).written with ⟨-, -, same⟩ | ⟨-, -, text, written⟩
  · rw [same]
    exact agree
  · exact agree.write written differ

theorem read_applyToFile_of_ne [LawfulStore σ] {other : String} (differ : path ≠ other)
    (window : Nat) (mode : EditMode) (store : σ) (patches : List Patch) :
    SourceStore.read (applyToFile window mode store other patches).1 path =
      SourceStore.read store path :=
  (agreeAt_applyToFile (.refl path store) differ window mode patches).read

/-! ## One file after another -/

/-- What the patches of a batch for one file come to. -/
def pathOutcome (window : Nat) (store : σ) (patches : List Patch) (path : String) :
    σ × PatchApplyResult :=
  applyToFile window .apply store path (filePatches .apply patches path)

theorem pathOutcome_outcome (window : Nat) (store : σ) (patches : List Patch) (path : String) :
    FileOutcome store path (filePatches .apply patches path)
      (pathOutcome window store patches path) :=
  applyToFile_outcome store path _

theorem applyFiles_cons (window : Nat) (patches : List Patch) (store : σ)
    (result : PatchApplyResult) (path : String) (rest : List String) :
    applyFiles window patches (store, result) (path :: rest) =
      applyFiles window patches ((pathOutcome window store patches path).1,
        result.append (pathOutcome window store patches path).2) rest := rfl

/-- The results of the files, each as if it were the only one, and what the store holds then. -/
theorem applyFiles_eq [LawfulStore σ] {now : σ} {paths : List String} (nodup : paths.Nodup)
    (agree : ∀ path ∈ paths, SourceStore.AgreeAt path now store) (window : Nat)
    (patches : List Patch) (start : PatchApplyResult) :
    (applyFiles window patches (now, start) paths).2 =
        (paths.map fun path => (pathOutcome window store patches path).2).foldl
          PatchApplyResult.append start ∧
      ∀ path, SourceStore.read (applyFiles window patches (now, start) paths).1 path =
        if path ∈ paths then SourceStore.read (pathOutcome window store patches path).1 path
        else SourceStore.read now path := by
  -- `now` is the store after the files before; at those to come it is still as it was at first.
  induction paths generalizing now start with
  | nil => simp [applyFiles]
  | cons path rest ih =>
    obtain ⟨fresh, nodup⟩ := List.nodup_cons.mp nodup
    have first : (pathOutcome window now patches path).2 =
          (pathOutcome window store patches path).2 ∧
        SourceStore.read (pathOutcome window now patches path).1 path =
          SourceStore.read (pathOutcome window store patches path).1 path :=
      applyToFile_of_agreeAt (agree path List.mem_cons_self) window .apply _
    have next : ∀ other ∈ rest,
        SourceStore.AgreeAt other (pathOutcome window now patches path).1 store := by
      intro other mem
      have differ : other ≠ path := fun same => fresh (same ▸ mem)
      exact agreeAt_applyToFile (agree other (List.mem_cons_of_mem _ mem)) differ window .apply _
    obtain ⟨results, reads⟩ :=
      ih nodup next (start.append (pathOutcome window now patches path).2)
    rw [applyFiles_cons]
    constructor
    · rw [results, first.1]
      rfl
    · intro other
      rw [reads other]
      by_cases same : other = path
      · subst same
        simp [fresh, first.2]
      · have kept : SourceStore.read (pathOutcome window now patches path).1 other =
            SourceStore.read now other := read_applyToFile_of_ne same window .apply now _
        simp [same, kept]

/-- The writes of a run: one for each file modified, in this order, and no other. -/
theorem applyFiles_writes {paths : List String} (nodup : paths.Nodup) (window : Nat)
    (patches : List Patch) (start : PatchApplyResult)
    (apart : ∀ path ∈ paths, path ∉ start.filesModified) :
    ∃ writes : List (String × String),
      SourceStore.writeAll store writes = .ok (applyFiles window patches (store, start) paths).1 ∧
        (applyFiles window patches (store, start) paths).2.filesModified =
          start.filesModified ++ writes.map (·.1) := by
  induction paths generalizing store start with
  | nil => exact ⟨[], rfl, by simp [applyFiles]⟩
  | cons path rest ih =>
    obtain ⟨fresh, nodup⟩ := List.nodup_cons.mp nodup
    rw [applyFiles_cons]
    have outcome := pathOutcome_outcome window store patches path
    generalize pathOutcome window store patches path = next at outcome ⊢
    rcases outcome.written with ⟨-, files, same⟩ | ⟨-, files, text, written⟩
    · have kept : (start.append next.2).filesModified = start.filesModified := by
        simp [PatchApplyResult.append, PatchApplyResult.ofParts, files]
      have apart' : ∀ other ∈ rest, other ∉ (start.append next.2).filesModified := by
        intro other mem
        rw [kept]
        exact apart other (List.mem_cons_of_mem _ mem)
      rw [same]
      obtain ⟨writes, done, listed⟩ := ih nodup (start.append next.2) apart'
      exact ⟨writes, done, kept ▸ listed⟩
    · have added : (start.append next.2).filesModified = start.filesModified ++ [path] := by
        simp [PatchApplyResult.append, PatchApplyResult.ofParts, files, apart path]
      have apart' : ∀ other ∈ rest, other ∉ (start.append next.2).filesModified := by
        intro other mem
        have differ : other ≠ path := fun same => fresh (same ▸ mem)
        simp [added, differ, apart other (List.mem_cons_of_mem _ mem)]
      obtain ⟨writes, done, listed⟩ := ih nodup (start.append next.2) apart'
      refine ⟨(path, text) :: writes, ?_, ?_⟩
      · simpa [SourceStore.writeAll, written] using done
      · simpa [added] using listed

/-! ## A batch -/

theorem flatMap_filePatches_perm (mode : EditMode) (patches : List Patch) :
    ((Ascending.ofList (patches.map (·.path))).flatMap (filePatches mode patches)).Perm
      patches := by
  have sorted : ((Ascending.ofList (patches.map (·.path))).flatMap (filePatches mode patches)).Perm
      ((Ascending.ofList (patches.map (·.path))).flatMap
        fun path => patches.filter (·.path == path)) :=
    List.Perm.flatMap_left _ fun path _ => Ascending.perm_sortBy _ _
  refine sorted.trans (flatMap_filter_key_perm (Ascending.nodup_ofList _) ?_)
  intro patch mem
  exact Ascending.mem_ofList.mpr (List.mem_map_of_mem mem)

theorem filter_path_eq_nil {patches : List Patch} (absent : path ∉ patches.map (·.path)) :
    patches.filter (·.path == path) = [] := by
  refine List.filter_eq_nil_iff.mpr fun patch mem same => absent ?_
  exact List.mem_map.mpr ⟨patch, mem, beq_iff_eq.mp same⟩

namespace PatchApplyResult

variable {results : String → PatchApplyResult} {paths : List String}

theorem accounts_foldl_append {own : String → List Patch} {done : List Patch}
    {start : PatchApplyResult} (accounts : ∀ path ∈ paths, Accounts (own path) (results path))
    (begun : Accounts done start) :
    Accounts (done ++ paths.flatMap own) ((paths.map results).foldl append start) := by
  induction paths generalizing start done with
  | nil => simpa using begun
  | cons path rest ih =>
    have next := begun.append (accounts path List.mem_cons_self)
    have tail := ih (fun other mem => accounts other (List.mem_cons_of_mem _ mem)) next
    simpa using tail

theorem filesModified_foldl_append (nodup : paths.Nodup)
    (files : ∀ path ∈ paths, (results path).filesModified =
      if (results path).patchesApplied = [] then [] else [path])
    {start : PatchApplyResult} (apart : ∀ path ∈ paths, path ∉ start.filesModified) :
    ((paths.map results).foldl append start).filesModified =
      start.filesModified ++ paths.filter fun path => (results path).patchesApplied ≠ [] := by
  induction paths generalizing start with
  | nil => simp
  | cons path rest ih =>
    obtain ⟨fresh, nodup⟩ := List.nodup_cons.mp nodup
    have here := files path List.mem_cons_self
    have added : (start.append (results path)).filesModified =
        start.filesModified ++ (results path).filesModified := by
      rw [here]
      by_cases nothing : (results path).patchesApplied = [] <;>
        simp [append, ofParts, here, nothing, apart path]
    have apart' : ∀ other ∈ rest, other ∉ (start.append (results path)).filesModified := by
      intro other mem
      have differ : other ≠ path := fun same => fresh (same ▸ mem)
      rw [added, here]
      by_cases nothing : (results path).patchesApplied = [] <;>
        simp [nothing, differ, apart other (List.mem_cons_of_mem _ mem)]
    rw [List.map_cons, List.foldl_cons,
      ih nodup (fun other mem => files other (List.mem_cons_of_mem _ mem)) apart', added, here]
    by_cases nothing : (results path).patchesApplied = [] <;> simp [nothing]

end PatchApplyResult

theorem FileOutcome.path_eq {patches : List Patch} {outcome : σ × PatchApplyResult}
    (file : FileOutcome store path patches outcome) (own : ∀ patch ∈ patches, patch.path = path) :
    ∀ patch ∈ outcome.2.patchesApplied ++ outcome.2.patchesFailed, patch.path = path := by
  intro patch mem
  have key : patch.key ∈ patches.map Patch.key :=
    file.accounts.listed.mem_iff.mp (List.mem_map_of_mem mem)
  obtain ⟨given, listed, same⟩ := List.mem_map.mp key
  have samePath : given.path = patch.path := congrArg Prod.snd same
  exact samePath.symm.trans (own given listed)

theorem filter_path_flatMap {paths : List String} (nodup : paths.Nodup)
    {lists : String → List Patch} (own : ∀ path, ∀ patch ∈ lists path, patch.path = path)
    (none : path ∉ paths → lists path = []) :
    (paths.flatMap lists).filter (·.path == path) = lists path := by
  have self : (lists path).filter (·.path == path) = lists path :=
    List.filter_eq_self.mpr fun patch mem => by simp [own path patch mem]
  have apart : ∀ other, other ≠ path → (lists other).filter (·.path == path) = [] := by
    intro other differ
    refine List.filter_eq_nil_iff.mpr fun patch mem => ?_
    simpa [own other patch mem] using differ
  by_cases listed : path ∈ paths
  · obtain ⟨before, rest, rfl⟩ := List.append_of_mem listed
    obtain ⟨-, after, apartFrom⟩ := List.nodup_append.mp nodup
    have notAfter : path ∉ rest := (List.nodup_cons.mp after).1
    have notBefore : path ∉ before := fun mem => apartFrom path mem path List.mem_cons_self rfl
    have others : ∀ part : List String, path ∉ part →
        (part.flatMap lists).filter (·.path == path) = [] := by
      intro part absent
      rw [List.filter_flatMap, List.flatMap_eq_nil_iff]
      exact fun other mem => apart other fun same => absent (same ▸ mem)
    simp [List.filter_append, others before notBefore, others rest notAfter, self]
  · rw [none listed, List.filter_flatMap, List.flatMap_eq_nil_iff]
    exact fun other mem => apart other fun same => listed (same ▸ mem)

/-! ## The whole batch -/

theorem pathOutcome_of_not_mem {patches : List Patch} (absent : path ∉ patches.map (·.path))
    (window : Nat) (store : σ) :
    (pathOutcome window store patches path).2.patchesApplied = [] ∧
      (pathOutcome window store patches path).2.patchesFailed = [] := by
  have keys := (pathOutcome_outcome window store patches path).accounts.listed
  rw [filePatches, filter_path_eq_nil absent] at keys
  simpa [Ascending.sortBy] using keys

section

variable [LawfulStore σ] (window : Nat) (store : σ) (patches : List Patch)

theorem applyAll_eq :
    (applyAll window .apply store patches).2 =
        ((Ascending.ofList (patches.map (·.path))).map
          fun path => (pathOutcome window store patches path).2).foldl
            PatchApplyResult.append .empty ∧
      ∀ path, SourceStore.read (applyAll window .apply store patches).1 path =
        SourceStore.read (pathOutcome window store patches path).1 path := by
  obtain ⟨results, reads⟩ := applyFiles_eq (Ascending.nodup_ofList (patches.map (·.path)))
    (fun path _ => SourceStore.AgreeAt.refl path store) window patches .empty
  refine ⟨results, ?_⟩
  intro path
  refine (reads path).trans ?_
  by_cases listed : path ∈ patches.map (·.path)
  · rw [if_pos (Ascending.mem_ofList.mpr listed)]
  · have nothing := (pathOutcome_of_not_mem listed window store).1
    rcases (pathOutcome_outcome window store patches path).written with ⟨-, -, same⟩ | ⟨some, -⟩
    · rw [if_neg (mt Ascending.mem_ofList.mp listed), same]
    · exact (some nothing).elim

/-- A batch is the batches on each of its files side by side. -/
theorem applyAll_isolated (path : String) :
    let all := applyAll window .apply store patches
    let own := pathOutcome window store patches path
    all.2.patchesApplied.filter (·.path == path) = own.2.patchesApplied ∧
      all.2.patchesFailed.filter (·.path == path) = own.2.patchesFailed ∧
        SourceStore.read all.1 path = SourceStore.read own.1 path := by
  intro all own
  obtain ⟨results, reads⟩ := applyAll_eq window store patches
  rw [PatchApplyResult.empty, PatchApplyResult.foldl_append_ofParts] at results
  have applied := congrArg PatchApplyResult.patchesApplied results
  have failed := congrArg PatchApplyResult.patchesFailed results
  simp only [PatchApplyResult.ofParts, List.nil_append, List.flatMap_map] at applied failed
  have nodup := Ascending.nodup_ofList (patches.map (·.path))
  have paths : ∀ other, ∀ patch ∈ (pathOutcome window store patches other).2.patchesApplied ++
      (pathOutcome window store patches other).2.patchesFailed, patch.path = other := by
    intro other
    refine (pathOutcome_outcome window store patches other).path_eq ?_
    intro patch mem
    exact (path_eq_of_mem_filePatches mem).2
  refine ⟨?_, ?_, reads path⟩
  · rw [applied]
    exact filter_path_flatMap nodup
      (fun other patch mem => paths other patch (List.mem_append_left _ mem))
      fun absent => (pathOutcome_of_not_mem (mt Ascending.mem_ofList.mpr absent) window store).1
  · rw [failed]
    exact filter_path_flatMap nodup
      (fun other patch mem => paths other patch (List.mem_append_right _ mem))
      fun absent => (pathOutcome_of_not_mem (mt Ascending.mem_ofList.mpr absent) window store).2

theorem accounts_applyAll : Accounts patches (applyAll window .apply store patches).2 := by
  have each : ∀ path ∈ Ascending.ofList (patches.map (·.path)),
      Accounts (filePatches .apply patches path) (pathOutcome window store patches path).2 :=
    fun path _ => (pathOutcome_outcome window store patches path).accounts
  have all := PatchApplyResult.accounts_foldl_append each PatchApplyResult.accounts_empty
  rw [← (applyAll_eq window store patches).1] at all
  exact all.of_keys ((flatMap_filePatches_perm .apply patches).map Patch.key)

theorem filesModified_applyAll :
    (applyAll window .apply store patches).2.filesModified =
      (Ascending.ofList (patches.map (·.path))).filter
        fun path => (pathOutcome window store patches path).2.patchesApplied ≠ [] := by
  have files : ∀ path ∈ Ascending.ofList (patches.map (·.path)),
      (pathOutcome window store patches path).2.filesModified =
        if (pathOutcome window store patches path).2.patchesApplied = [] then [] else [path] := by
    intro path _
    rcases (pathOutcome_outcome window store patches path).written with
      ⟨nothing, none, -⟩ | ⟨some, one, -⟩
    · rw [none, if_pos nothing]
    · rw [one, if_neg some]
  have untouched : ∀ path ∈ Ascending.ofList (patches.map (·.path)),
      path ∉ PatchApplyResult.empty.filesModified := fun _ _ => List.not_mem_nil
  rw [(applyAll_eq window store patches).1, PatchApplyResult.filesModified_foldl_append
    (Ascending.nodup_ofList (patches.map (·.path))) files untouched]
  rfl

theorem mem_filesModified_applyAll {path : String} :
    path ∈ (applyAll window .apply store patches).2.filesModified ↔
      ∃ patch ∈ (applyAll window .apply store patches).2.patchesApplied, patch.path = path := by
  have own := (applyAll_isolated window store patches path).1
  have listed : (pathOutcome window store patches path).2.patchesApplied ≠ [] →
      path ∈ Ascending.ofList (patches.map (·.path)) := by
    intro some
    by_contra absent
    exact some (pathOutcome_of_not_mem (mt Ascending.mem_ofList.mpr absent) window store).1
  rw [filesModified_applyAll, List.mem_filter, decide_eq_true_eq, and_iff_right_of_imp listed,
    ← own, ne_eq, List.filter_eq_nil_iff]
  simp

theorem read_applyAll_of_not_mem {path : String}
    (unmodified : path ∉ (applyAll window .apply store patches).2.filesModified) :
    SourceStore.read (applyAll window .apply store patches).1 path =
      SourceStore.read store path := by
  obtain ⟨applied, -, read⟩ := applyAll_isolated window store patches path
  have nothing : (pathOutcome window store patches path).2.patchesApplied = [] := by
    rw [← applied, List.filter_eq_nil_iff]
    intro patch mem same
    refine unmodified ((mem_filesModified_applyAll window store patches).mpr ⟨patch, mem, ?_⟩)
    simpa using same
  rcases (pathOutcome_outcome window store patches path).written with ⟨-, -, same⟩ | ⟨some, -⟩
  · rw [read, same]
  · exact (some nothing).elim

end

namespace PatchEngine

/-- Accounting and isolation of a batch. Every patch is reported once and every failed one with its
error. The files modified are those with a patch applied, each of them is written once, in ascending
order, and no other write is made. What becomes of the patches of a file, and of the file, depends
on these patches and on this file alone. What was applied is recorded, and beyond the limit the
oldest records are forgotten; with nothing applied, or nothing kept, the history stays as it is. -/
theorem apply_accounts [LawfulStore σ] (engine : PatchEngine) (store : σ)
    (patches : List Patch) :
    let outcome := engine.apply store patches
    let result := outcome.2.2
    ((result.patchesApplied ++ result.patchesFailed).map (·.id)).Perm (patches.map (·.id)) ∧
    (result.errors = result.patchesFailed.map Patch.errorLine ∧
      ∀ patch ∈ result.patchesFailed, patch.applied = some false ∧ patch.error.isSome) ∧
    (result.success = true ↔ result.errors = []) ∧
    (result.filesModified.Pairwise (· < ·) ∧ ∀ path, path ∈ result.filesModified ↔
      ∃ patch ∈ result.patchesApplied, patch.path = path) ∧
    ((∃ writes, SourceStore.writeAll store writes = .ok outcome.2.1 ∧
        writes.map (·.1) = result.filesModified) ∧
      ∀ path, path ∉ result.filesModified →
        SourceStore.read outcome.2.1 path = SourceStore.read store path) ∧
    (∀ (path : String) (engine' : PatchEngine) (store' : σ) (patches' : List Patch),
      engine'.driftWindow = engine.driftWindow → SourceStore.AgreeAt path store' store →
      patches'.filter (·.path == path) = patches.filter (·.path == path) →
        let outcome' := engine'.apply store' patches'
        outcome'.2.2.patchesApplied.filter (·.path == path) =
            result.patchesApplied.filter (·.path == path) ∧
          outcome'.2.2.patchesFailed.filter (·.path == path) =
            result.patchesFailed.filter (·.path == path) ∧
          SourceStore.read outcome'.2.1 path = SourceStore.read outcome.2.1 path) ∧
    outcome.1 = { engine with
      history := if engine.historyLimit = 0 ∨ result.patchesApplied = [] then engine.history
        else takeLast engine.historyLimit (engine.history ++ result.patchesApplied) } ∧
    (engine.history.length ≤ engine.historyLimit → outcome.1 = { engine with
      history := takeLast engine.historyLimit (engine.history ++ result.patchesApplied) }) := by
  intro outcome result
  have accounts : Accounts patches result := accounts_applyAll engine.driftWindow store patches
  refine ⟨?_, ⟨accounts.errors, accounts.reasons⟩, accounts.success, ⟨?_, ?_⟩, ⟨?_, ?_⟩, ?_,
    record_eq engine result.patchesApplied, fun fits => apply_engine_of_fits fits store patches⟩
  · have ids := accounts.listed.map Prod.fst
    simpa [Patch.key, Function.comp_def] using ids
  · have modified := filesModified_applyAll engine.driftWindow store patches
    exact modified ▸ (Ascending.pairwise_ofList _).filter _
  · intro path
    exact mem_filesModified_applyAll engine.driftWindow store patches
  · have untouched : ∀ path ∈ Ascending.ofList (patches.map (·.path)),
        path ∉ PatchApplyResult.empty.filesModified := fun _ _ => List.not_mem_nil
    obtain ⟨writes, written, listed⟩ := @applyFiles_writes σ _ store _
      (Ascending.nodup_ofList _) engine.driftWindow patches .empty untouched
    exact ⟨writes, written, listed.symm⟩
  · intro path unmodified
    exact read_applyAll_of_not_mem engine.driftWindow store patches unmodified
  · intro path engine' store' patches' window agree same outcome'
    obtain ⟨applied, failed, read⟩ := applyAll_isolated engine.driftWindow store patches path
    obtain ⟨applied', failed', read'⟩ := applyAll_isolated engine'.driftWindow store' patches' path
    have order : filePatches .apply patches' path = filePatches .apply patches path :=
      congrArg (Ascending.sortBy _) same
    obtain ⟨sameResult, sameRead⟩ :=
      applyToFile_of_agreeAt agree engine.driftWindow .apply (filePatches .apply patches path)
    have own : pathOutcome engine'.driftWindow store' patches' path =
        applyToFile engine.driftWindow .apply store' path (filePatches .apply patches path) := by
      rw [pathOutcome, window, order]
    rw [own, sameResult] at applied' failed'
    rw [own, sameRead] at read'
    exact ⟨applied'.trans applied.symm, failed'.trans failed.symm, read'.trans read.symm⟩

/-- One file is changed, one cannot be read, one cannot be written and one does not exist. The first
comes out as it does alone. -/
theorem apply_accounts_refused_files :
    let store : MemoryStore :=
      { files := [("a.ts", "one\ntwo\n"), ("b.ts", "one\n"), ("c.ts", "one\n")]
        unreadable := ["b.ts"], unwritable := ["c.ts"] }
    let alone : MemoryStore := { files := [("a.ts", "one\ntwo\n")] }
    let patch (id path : String) (oldCode : String) : Patch :=
      ⟨id, path, 1, oldCode, "uno", "", true, none, none⟩
    let own := [patch "p1" "a.ts" "one", patch "p2" "a.ts" "four"]
    let batch := patch "p3" "d.ts" "one" :: patch "p4" "c.ts" "one" :: own ++
      [patch "p5" "b.ts" "one"]
    let engine : PatchEngine := ⟨[], 10, 5⟩
    let outcome := engine.apply store batch
    let single := engine.apply alone own
    outcome.2.2.patchesApplied.map (·.id) = ["p1"] ∧
      outcome.2.2.patchesFailed.map (·.id) = ["p2", "p5", "p4", "p3"] ∧
      (outcome.2.2.success = true ↔ outcome.2.2.errors = []) ∧
      SourceStore.read outcome.2.1 "c.ts" = .ok "one\n" ∧
      single.2.2.patchesApplied.filter (·.path == "a.ts") =
        outcome.2.2.patchesApplied.filter (·.path == "a.ts") ∧
      SourceStore.read single.2.1 "a.ts" = SourceStore.read outcome.2.1 "a.ts" ∧
      outcome.1.history =
        takeLast engine.historyLimit (engine.history ++ outcome.2.2.patchesApplied) := by
  intro store alone patch own batch engine
  have agree : SourceStore.AgreeAt "a.ts" alone store := ⟨rfl, fun _ => rfl⟩
  have sameOwn : own.filter (·.path == "a.ts") = batch.filter (·.path == "a.ts") := by decide
  have fits : engine.history.length ≤ engine.historyLimit := by decide
  have accounts := apply_accounts engine store batch
  dsimp only at accounts ⊢
  obtain ⟨-, -, success, -, ⟨-, unmodified⟩, isolated, -, recorded⟩ := accounts
  obtain ⟨applied, -, read⟩ := isolated "a.ts" engine alone own rfl agree sameOwn
  have kept := congrArg PatchEngine.history (recorded fits)
  dsimp only at kept
  exact ⟨by decide, by decide, success, unmodified "c.ts" (by decide),
    applied, read, kept⟩

end PatchEngine

end ChangeImpact
