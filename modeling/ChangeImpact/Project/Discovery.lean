import ChangeImpact.Ascending
import ChangeImpact.Config
import ChangeImpact.Ignore
import ChangeImpact.Project.Basic

/-!
# Finding the source files of a project

The files below the root whose paths an include pattern matches. Ignored names and what the ignore
files hide are left out, with all that is below them.
-/

namespace ChangeImpact

inductive DiscoveryError where
  | notDirectory (root : String)
  | badPattern (pattern : String) (cause : GlobError)
  deriving DecidableEq, Repr

namespace DiscoveryError

def globMessage (pattern : String) (cause : GlobError) : String :=
  "error parsing glob '" ++ pattern ++ "': " ++ cause.message

def message : DiscoveryError → String
  | notDirectory root => "project root " ++ root ++ " is not a directory"
  | badPattern pattern cause =>
    "invalid include pattern '" ++ pattern ++ "': " ++ globMessage pattern cause

end DiscoveryError

namespace Discovery

/-- Reads include patterns, up to the first one that is no glob. Their wildcards match slashes. -/
def readPatterns (patterns : List String) : Except DiscoveryError (List Glob) :=
  patterns.mapM fun pattern => (Glob.read ⟨false, false⟩ pattern).mapError (.badPattern pattern)

mutual

/-- The files below an entry; `front` is the way to it from the root, with a slash at its end. -/
def filesBelow (config : ProjectConfig) (levels : List IgnoreLevel) (front : String) :
    Entry → List String
  | .file _ => []
  | .dir entries =>
    filesAmong config (IgnoreLevel.ofDirectory (.dir entries) :: levels) front entries

def filesAmong (config : ProjectConfig) (levels : List IgnoreLevel) (front : String) :
    List (String × Entry) → List String
  | [] => []
  | (name, entry) :: rest =>
    let found :=
      if IgnoreLevel.skips levels name entry.isDir || config.isIgnored name then []
      else if entry.isDir then
        filesBelow config (levels.map (·.enter name)) (front ++ name ++ "/") entry
      else [front ++ name]
    found ++ filesAmong config levels front rest

end

end Discovery

namespace Project

def patterns (project : Project) (config : ProjectConfig) : Except DiscoveryError (List Glob) :=
  if project.disk.isDir project.root then Discovery.readPatterns config.includes
  else .error (.notDirectory project.root)

/-- The source files of a project, by their paths in ascending order. -/
def discover (project : Project) (config : ProjectConfig) :
    Except DiscoveryError (List String) := do
  let globs ← project.patterns config
  let files :=
    match project.disk.locate project.root with
    | .ok ⟨names, some root⟩ =>
      Discovery.filesBelow config (IgnoreLevel.above project.disk.tree names []) "" root
    | _ => []
  return Ascending.sortStrings (files.filter fun path => globs.any (·.matchesPath path))

end Project

end ChangeImpact
