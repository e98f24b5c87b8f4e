import ChangeImpact.Json.Parser
import ChangeImpact.Json.Printer
import ChangeImpact.Project.Basic
import ChangeImpact.Timestamp
import ChangeImpact.Wire.Change

/-!
# The saved patch history of a project

The history of applied patches is kept in a file of the project from one run to the next, with the
instant at which it was saved.
-/

namespace ChangeImpact

/-- The version of this program, and of the histories that it writes. -/
def version : String := "0.1.0"

inductive HistoryError where
  | inaccessible (path : String) (cause : IoError)
  | malformed (path : String)
  deriving DecidableEq, Repr

def HistoryError.message : HistoryError → String
  | inaccessible path cause => "failed to access " ++ path ++ ": " ++ cause.message
  | malformed path => "corrupt patch history in " ++ path ++ ": not a saved history"

/-- A history as it is saved: its version, the instant, and the patches, oldest first. -/
structure SavedHistory where
  version : String
  savedAt : String
  patches : List Patch
  deriving DecidableEq, Repr

namespace SavedHistory

def toJson (history : SavedHistory) : Json :=
  .obj [("version", .str history.version), ("savedAt", .str history.savedAt),
    ("patches", .list Patch.toJson history.patches)]

def instant? (json : Json) : Option String :=
  json.str?.filter fun text => Timestamp.isInstant text.toList

def ofJson? (json : Json) : Option SavedHistory := do
  let members ← Json.record? ["version", "savedAt", "patches"] json
  return {
    version := ← Json.required Json.str? "version" members
    savedAt := ← Json.required instant? "savedAt" members
    patches := ← Json.required (Json.list? Patch.ofJson?) "patches" members }

end SavedHistory

namespace Project

/-- The directory that holds what is kept from one run to the next. -/
def stateDirectory (project : Project) : String :=
  project.path ".ripple"

def historyPath (project : Project) : String :=
  Path.join project.stateDirectory "history.json"

/-- Saves patches, oldest first, as the history of an instant given in nanoseconds since 1970. -/
def saveHistory (project : Project) (now : Nat) (patches : List Patch) :
    Except HistoryError Project := do
  let disk ← (project.disk.makeDirs project.stateDirectory).mapError
    (.inaccessible project.stateDirectory)
  let saved : SavedHistory := ⟨version, Timestamp.render now, patches⟩
  let disk ← (disk.writeText project.historyPath saved.toJson.pretty).mapError
    (.inaccessible project.historyPath)
  return { project with disk }

/-- The saved history. A project without one has no patches. -/
def loadHistory (project : Project) : Except HistoryError (List Patch) :=
  if !project.disk.has project.historyPath then .ok []
  else
    match project.disk.readText project.historyPath with
    | .error cause => .error (.inaccessible project.historyPath cause)
    | .ok text =>
      match (Json.parse? text).bind SavedHistory.ofJson? with
      | some saved => .ok saved.patches
      | none => .error (.malformed project.historyPath)

def clearState (project : Project) : Except HistoryError Project :=
  if !project.disk.has project.stateDirectory then .ok project
  else
    match project.disk.removeDir project.stateDirectory with
    | .ok disk => .ok { project with disk }
    | .error cause => .error (.inaccessible project.stateDirectory cause)

end Project

end ChangeImpact
