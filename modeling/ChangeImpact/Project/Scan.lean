import ChangeImpact.Project.Discovery
import ChangeImpact.Source.Extraction

/-!
# Scanning a project

Each source file is read and turned into a node. A file that cannot be is skipped, with the reason.
-/

namespace ChangeImpact

inductive ScanError where
  | unreadable (path : String) (cause : IoError)
  | notText (path : String)
  | tooLarge (path : String) (size limit : Nat)
  | unsupported (path : String)
  deriving DecidableEq, Repr

namespace ScanError

def path : ScanError → String
  | unreadable path _ | notText path | tooLarge path _ _ | unsupported path => path

def message : ScanError → String
  | unreadable path cause => "failed to read " ++ path ++ ": " ++ cause.message
  | notText path => path ++ " is not valid UTF-8"
  | tooLarge path size limit =>
    path ++ " is " ++ toString size ++ " bytes, over the " ++ toString limit ++ " byte limit"
  | unsupported path => "no extractor handles " ++ path

end ScanError

/-- What a scan found: the nodes, the files left out, and the number of all of them. -/
structure ScanOutcome where
  nodes : List CodeNode
  skipped : List ScanError
  filesSeen : Nat
  deriving DecidableEq, Repr

namespace ScanOutcome

def empty : ScanOutcome := ⟨[], [], 0⟩

def add (outcome : ScanOutcome) : Except ScanError CodeNode → ScanOutcome
  | .ok node =>
    { outcome with nodes := outcome.nodes ++ [node], filesSeen := outcome.filesSeen + 1 }
  | .error error =>
    { outcome with skipped := outcome.skipped ++ [error], filesSeen := outcome.filesSeen + 1 }

end ScanOutcome

namespace Project

/-- The node of one file. Its size is looked at before it is read, and its name after that. -/
def scanFile (project : Project) (config : ProjectConfig) (path : String) :
    Except ScanError CodeNode := do
  let size ← (project.disk.size (project.path path)).mapError (.unreadable path)
  if config.maxFileBytes < size then throw (.tooLarge path size config.maxFileBytes)
  let data ← (project.disk.readBytes (project.path path)).mapError (.unreadable path)
  match String.fromUTF8? data with
  | none => throw (.notText path)
  | some content =>
    if Extraction.handles path then return (Extraction.ofText path content).toNode path
    else throw (.unsupported path)

def scan (project : Project) (config : ProjectConfig) : Except DiscoveryError ScanOutcome :=
  (project.discover config).map fun files =>
    files.foldl (fun outcome path => outcome.add (project.scanFile config path)) .empty

end Project

end ChangeImpact
