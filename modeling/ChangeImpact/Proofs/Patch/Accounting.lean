import ChangeImpact.Patch.Engine
import ChangeImpact.Proofs.Patch.Edit

/-!
# What is reported of patches

Every patch is reported once, as applied or as failed, and every failed one with the reason that is
listed among the errors. A file is reported as modified exactly if one of its patches is reported as
applied, and then it was written once.
-/

namespace ChangeImpact

namespace Patch

/-- What a patch keeps whatever becomes of it. -/
def key (patch : Patch) : String × String :=
  (patch.id, patch.path)

def errorLine (patch : Patch) : String :=
  patch.id ++ ": " ++ patch.error.getD ""

@[simp] theorem key_asApplied (patch : Patch) (line : Nat) (oldCode newCode : String) :
    (patch.asApplied line oldCode newCode).key = patch.key := rfl

@[simp] theorem key_asFailed (patch : Patch) (error : PatchError) :
    (patch.asFailed error).key = patch.key := rfl

@[simp] theorem errorLine_asFailed (patch : Patch) (error : PatchError) :
    (patch.asFailed error).errorLine = patch.id ++ ": " ++ error.message := rfl

end Patch

namespace PatchApplyResult

variable {first second result : PatchApplyResult} {patches more applied : List Patch}
  {failures : List (Patch × PatchError)}

/-- Every patch is in one of the two lists, the failed ones carry a reason, and the errors are
these reasons. -/
structure Accounts (patches : List Patch) (result : PatchApplyResult) : Prop where
  listed : ((result.patchesApplied ++ result.patchesFailed).map Patch.key).Perm
    (patches.map Patch.key)
  reasons : ∀ patch ∈ result.patchesFailed, patch.applied = some false ∧ patch.error.isSome
  errors : result.errors = result.patchesFailed.map Patch.errorLine
  success : result.success = true ↔ result.errors = []

theorem accounts_empty : Accounts [] empty := by
  constructor <;> simp [empty, ofParts]

theorem accounts_ofFailures (listed : (failures.map (·.1.key)).Perm (patches.map Patch.key)) :
    Accounts patches (ofFailures failures) := by
  constructor
  · simpa [ofFailures, ofParts, Function.comp_def] using listed
  · intro patch mem
    simp only [ofFailures, ofParts, List.mem_map] at mem
    obtain ⟨⟨tried, error⟩, -, rfl⟩ := mem
    exact ⟨rfl, rfl⟩
  · simp [ofFailures, ofParts, Function.comp_def]
  · cases failures <;> simp [ofFailures, ofParts]

theorem accounts_ofParts (listed : (applied.map Patch.key).Perm (patches.map Patch.key))
    (files : List String) : Accounts patches (ofParts applied [] [] files) := by
  constructor <;> simp [ofParts, listed]

theorem Accounts.of_keys (accounts : Accounts patches result)
    (same : (patches.map Patch.key).Perm (more.map Patch.key)) : Accounts more result :=
  { accounts with listed := accounts.listed.trans same }

theorem Accounts.append (one : Accounts patches first) (other : Accounts more second) :
    Accounts (patches ++ more) (first.append second) := by
  have errors : (first.append second).errors =
      (first.append second).patchesFailed.map Patch.errorLine := by
    simp [PatchApplyResult.append, ofParts, one.errors, other.errors]
  constructor
  · have both := one.listed.append other.listed
    refine List.Perm.trans ?_ (by simpa using both)
    simp only [PatchApplyResult.append, ofParts, List.map_append, List.append_assoc]
    -- Applied, applied, failed, failed: the two in the middle change places.
    refine List.Perm.append_left _ ?_
    rw [← List.append_assoc, ← List.append_assoc]
    exact List.perm_append_comm.append_right _
  · intro patch mem
    rcases List.mem_append.mp mem with mem | mem
    · exact one.reasons patch mem
    · exact other.reasons patch mem
  · exact errors
  · rw [errors]
    simp [PatchApplyResult.append, ofParts, one.errors, other.errors]

/-! ### Results one after another -/

def addFile (files : List String) (file : String) : List String :=
  if files.contains file then files else files ++ [file]

theorem nodup_foldl_addFile {files : List String} (nodup : files.Nodup) (more : List String) :
    (more.foldl addFile files).Nodup := by
  induction more generalizing files with
  | nil => exact nodup
  | cons file rest ih =>
    refine ih ?_
    unfold addFile
    by_cases listed : file ∈ files
    · simpa [listed] using nodup
    · simpa [listed, List.nodup_append] using ⟨nodup, fun other mem same => listed (same ▸ mem)⟩

theorem foldl_append_ofParts (results : List PatchApplyResult) (applied failed : List Patch)
    (errors files : List String) :
    results.foldl append (ofParts applied failed errors files) =
      ofParts (applied ++ results.flatMap (·.patchesApplied))
        (failed ++ results.flatMap (·.patchesFailed)) (errors ++ results.flatMap (·.errors))
        ((results.flatMap (·.filesModified)).foldl addFile files) := by
  induction results generalizing applied failed errors files with
  | nil => simp
  | cons result rest ih =>
    have first : (ofParts applied failed errors files).append result =
        ofParts (applied ++ result.patchesApplied) (failed ++ result.patchesFailed)
          (errors ++ result.errors) (result.filesModified.foldl addFile files) := rfl
    rw [List.foldl_cons, first, ih]
    simp only [List.flatMap_cons, List.append_assoc, List.foldl_append]

end PatchApplyResult

open PatchApplyResult (Accounts)

variable {window : Nat} {mode : EditMode}

theorem key_of_edit {doc next : Document} {patch done : Patch}
    (h : doc.edit window mode patch = .ok (next, done)) : done.key = patch.key := by
  obtain ⟨-, ⟨-, -, -, rfl⟩ | ⟨index, current, -, -, -, made⟩⟩ := Document.edit_cases h
  · rfl
  · unfold Document.amend at made
    split at made <;> exact congrArg (fun made => made.2.key) made

theorem keys_of_run (doc : Document) (patches : List Patch) :
    let run := EditRun.run window mode doc patches
    (run.applied.map Patch.key ++ run.failed.map (·.1.key)).Perm (patches.map Patch.key) := by
  induction patches generalizing doc with
  | nil => simp [EditRun.run]
  | cons patch rest ih =>
    cases edited : doc.edit window mode patch with
    | ok pair =>
      obtain ⟨next, done⟩ := pair
      rw [EditRun.run_cons_ok edited]
      simpa [key_of_edit edited] using ih next
    | error error =>
      rw [EditRun.run_cons_error edited]
      simp only [List.map_cons]
      exact List.perm_middle.trans ((ih doc).cons patch.key)

/-! ## One file -/

variable {σ : Type} [SourceStore σ]

structure FileOutcome (store : σ) (path : String) (patches : List Patch)
    (outcome : σ × PatchApplyResult) : Prop where
  accounts : Accounts patches outcome.2
  written : (outcome.2.patchesApplied = [] ∧ outcome.2.filesModified = [] ∧ outcome.1 = store) ∨
    (outcome.2.patchesApplied ≠ [] ∧ outcome.2.filesModified = [path] ∧
      ∃ text, SourceStore.write store path text = .ok outcome.1)

theorem applyToFile_outcome (store : σ) (path : String) (patches : List Patch) :
    FileOutcome store path patches (applyToFile window mode store path patches) := by
  unfold applyToFile
  cases SourceStore.read store path with
  | error cause =>
    dsimp only
    refine ⟨PatchApplyResult.accounts_ofFailures (by simp [Function.comp_def]), ?_⟩
    exact .inl ⟨rfl, rfl, rfl⟩
  | ok content =>
    dsimp only
    have keys := @keys_of_run window mode (Document.parse content) patches
    generalize EditRun.run window mode (Document.parse content) patches = run at keys ⊢
    have failures : Accounts (run.failed.map (·.1)) (.ofFailures run.failed) :=
      PatchApplyResult.accounts_ofFailures (by simp [Function.comp_def])
    by_cases nothing : run.applied = []
    · simp only [nothing, List.map_nil, List.nil_append] at keys
      simp only [nothing, List.isEmpty_nil, if_true]
      exact ⟨PatchApplyResult.accounts_ofFailures keys, .inl ⟨rfl, rfl, rfl⟩⟩
    · have all : ((run.failed.map (·.1) ++ run.applied).map Patch.key).Perm
          (patches.map Patch.key) := by
        rw [List.map_append, List.map_map]
        exact List.perm_append_comm.trans keys
      simp only [List.isEmpty_iff, nothing, if_false]
      cases written : SourceStore.write store path run.doc.render with
      | ok after =>
        have applied : Accounts run.applied (.ofParts run.applied [] [] [path]) :=
          PatchApplyResult.accounts_ofParts (.refl _) [path]
        exact ⟨(failures.append applied).of_keys all, .inr ⟨nothing, rfl, _, written⟩⟩
      | error cause =>
        have refused : Accounts run.applied
            (.ofFailures (run.applied.map (·, .unwritable path cause))) :=
          PatchApplyResult.accounts_ofFailures (by simp [Function.comp_def])
        exact ⟨(failures.append refused).of_keys all, .inl ⟨rfl, rfl, rfl⟩⟩

end ChangeImpact
