import ChangeImpact.Ascending
import ChangeImpact.Config
import ChangeImpact.Patch.Edit

/-!
# Applying patches

Patches are applied file by file. A patch that fails does not keep the others of its file from being
applied, and a file that cannot be read or written does not keep other files from being changed. The
patches applied are recorded, oldest first, up to a limit.
-/

namespace ChangeImpact

namespace PatchApplyResult

/-- The result in which nothing failed unless a failure or an error is listed. -/
def ofParts (applied failed : List Patch) (errors files : List String) : PatchApplyResult :=
  ⟨failed.isEmpty && errors.isEmpty, applied, failed, errors, files⟩

def empty : PatchApplyResult :=
  ofParts [] [] [] []

/-- Two results one after the other; a file modified in both is listed once. -/
def append (first second : PatchApplyResult) : PatchApplyResult :=
  ofParts (first.patchesApplied ++ second.patchesApplied)
    (first.patchesFailed ++ second.patchesFailed) (first.errors ++ second.errors)
    (second.filesModified.foldl
      (fun files file => if files.contains file then files else files ++ [file])
      first.filesModified)

def ofFailures (failures : List (Patch × PatchError)) : PatchApplyResult :=
  ofParts [] (failures.map fun (patch, error) => patch.asFailed error)
    (failures.map fun (patch, error) => patch.id ++ ": " ++ error.message) []

end PatchApplyResult

def applyToFile [SourceStore σ] (window : Nat) (mode : EditMode) (store : σ) (path : String)
    (patches : List Patch) : σ × PatchApplyResult :=
  match SourceStore.read store path with
  | .error cause =>
    let error := if cause.kind == .notFound then .fileMissing path else .unreadable path cause
    (store, .ofFailures (patches.map (·, error)))
  | .ok content =>
    let run := EditRun.run window mode (Document.parse content) patches
    let failures := PatchApplyResult.ofFailures run.failed
    if run.applied.isEmpty then (store, failures)
    else
      match SourceStore.write store path run.doc.render with
      | .ok store => (store, failures.append (.ofParts run.applied [] [] [path]))
      | .error cause =>
        (store, failures.append (.ofFailures (run.applied.map (·, .unwritable path cause))))

def filePatches (mode : EditMode) (patches : List Patch) (path : String) : List Patch :=
  Ascending.sortBy (Patch.comesFirst mode) (patches.filter (·.path == path))

/-- Applies patches file by file, the files by their paths. -/
def applyAll [SourceStore σ] (window : Nat) (mode : EditMode) (store : σ) (patches : List Patch) :
    σ × PatchApplyResult :=
  (Ascending.ofList (patches.map (·.path))).foldl
    (fun (store, result) path =>
      let (store, next) := applyToFile window mode store path (filePatches mode patches path)
      (store, result.append next))
    (store, .empty)

/-- What stays from one call to the next: the patches applied, oldest first, and two settings. -/
structure PatchEngine where
  history : List Patch
  historyLimit : Nat
  driftWindow : Nat
  deriving DecidableEq, Repr

namespace PatchEngine

def ofConfig (config : ProjectConfig) : PatchEngine :=
  ⟨[], config.historyLimit, config.driftWindow⟩

/-- Forgets the oldest entries until there is room for one more. -/
def evict (limit : Nat) : List Patch → List Patch
  | [] => []
  | oldest :: rest => if limit ≤ rest.length + 1 then evict limit rest else oldest :: rest

/-- Adds one patch to the history. A limit of zero means that none is kept. -/
def recordOne (engine : PatchEngine) (patch : Patch) : PatchEngine :=
  if engine.historyLimit = 0 then engine
  else { engine with history := evict engine.historyLimit engine.history ++ [patch] }

def record (engine : PatchEngine) (patches : List Patch) : PatchEngine :=
  patches.foldl recordOne engine

def ofHistory (config : ProjectConfig) (patches : List Patch) : PatchEngine :=
  (ofConfig config).record patches

def apply [SourceStore σ] (engine : PatchEngine) (store : σ) (patches : List Patch) :
    PatchEngine × σ × PatchApplyResult :=
  let (store, result) := applyAll engine.driftWindow .apply store patches
  (engine.record result.patchesApplied, store, result)

end PatchEngine

end ChangeImpact
