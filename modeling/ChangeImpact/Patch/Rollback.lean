import ChangeImpact.Patch.Engine

/-!
# Rolling patches back

Recorded patches are undone one at a time, the newest first, each on the file as the one before left
it. A patch that cannot be undone stays in the history. Lines in the history are counted at the time
of their patch, so undoing one out of order takes into account the deletions recorded after it.
-/

namespace ChangeImpact

namespace PatchEngine

/-- Where a patch recorded before `later` stands after them: a deletion above it, in the same file,
has moved it up by one line. -/
def currentLine (entry : Patch) (later : List Patch) : Nat :=
  later.foldl
    (fun line patch =>
      if patch.path == entry.path && patch.isDeletion && patch.line < line then line - 1 else line)
    entry.line

/-- The patches recorded after a deletion, at the lines they have if the deleted line, which stood
at `restored` at the time of the first of them, is back. -/
def shiftAfter (path : String) (restored : Nat) : List Patch → List Patch
  | [] => []
  | patch :: rest =>
    if patch.path == path then
      let moved := if restored ≤ patch.line then { patch with line := patch.line + 1 } else patch
      moved :: shiftAfter path
        (if patch.isDeletion && patch.line < restored then restored - 1 else restored) rest
    else patch :: shiftAfter path restored rest

/-- The patches recorded after `undone`, on a file where it never happened. -/
def rebase (undone : Patch) (later : List Patch) : List Patch :=
  if undone.isDeletion then shiftAfter undone.path undone.line later else later

/-- The place of the latest entry with an identifier, leaving out the entries at `skipped`. -/
def latestIndex? (history : List Patch) (skipped : List Nat) (id : String) : Option Nat :=
  (history.zipIdx.reverse.find? fun (patch, index) => patch.id == id && !skipped.contains index).map
    (·.2)

/-- A rollback under way: the history left, the places in it of the entries that could not be
undone, the store, and the result so far. -/
structure RollbackRun (σ : Type) where
  history : List Patch
  skipped : List Nat
  store : σ
  result : PatchApplyResult

/-- Undoes the latest entry with an identifier that has not been tried. -/
def undoStep [SourceStore σ] (window : Nat) (run : RollbackRun σ) (id : String) : RollbackRun σ :=
  match latestIndex? run.history run.skipped id with
  | none => run
  | some index =>
    match run.history[index]? with
    | none => run
    | some entry =>
      let later := run.history.drop (index + 1)
      let inverse := { entry.inverse with line := currentLine entry later }
      let (store, step) := applyAll window .undo run.store [inverse]
      let result := run.result.append step
      if step.patchesApplied.isEmpty then
        { run with skipped := index :: run.skipped, store, result }
      else
        { history := run.history.take index ++ rebase entry later
          skipped := run.skipped.map fun i => if index < i then i - 1 else i
          store, result }

def selected (history : List Patch) : Option (List String) → List String
  | none => history.map (·.id)
  | some ids => (history.filter fun patch => ids.contains patch.id).map (·.id)

def unknownErrors (history : List Patch) : Option (List String) → List String
  | none => []
  | some ids =>
    (ids.filter fun id => !history.any (·.id == id)).map (· ++ ": not in patch history")

def beginRollback (engine : PatchEngine) (store : σ) (ids : Option (List String)) :
    RollbackRun σ :=
  ⟨engine.history, [], store, .ofParts [] [] (unknownErrors engine.history ids) []⟩

def undoAll [SourceStore σ] (window : Nat) (run : RollbackRun σ) (ids : List String) :
    RollbackRun σ :=
  ids.foldl (undoStep window) run

/-- Undoes the selected entries, all of them if none are named. -/
def rollback [SourceStore σ] (engine : PatchEngine) (store : σ) (ids : Option (List String)) :
    PatchEngine × σ × PatchApplyResult :=
  let run := undoAll engine.driftWindow (beginRollback engine store ids)
    (selected engine.history ids).reverse
  ({ engine with history := run.history }, run.store, run.result)

end PatchEngine

end ChangeImpact
