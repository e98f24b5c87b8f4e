import ChangeImpact.Command.Run
import ChangeImpact.DiskChange
import Std.Time.DateTime.Timestamp

/-!
# The program

Reads the tree of a project from the disk, runs one command on it, and writes back what has changed.
-/

open ChangeImpact

/-- What stands at a path. Of a repository only the list of excluded files is read, and links are
left out. -/
partial def readEntry (path name : String) : IO (Option Entry) := do
  let place ← IO.FS.realPath path
  match (← place.metadata).type with
  | .file => return some (.file (← IO.FS.readBinFile path))
  | .dir =>
    let mut entries := []
    for child in ← place.readDir do
      if name == ".git" && child.fileName != "info" then continue
      if (← child.path.symlinkMetadata).type == .symlink then continue
      if let some entry ← readEntry (Path.join path child.fileName) child.fileName then
        entries := (child.fileName, entry) :: entries
    return some (.dir entries)
  | _ => return none

def readEntry? (path name : String) : IO (Option Entry) :=
  try readEntry path name catch _ => return none

/-- The files outside of a project that tell which of its files are ignored, by their names from the
root of the disk. -/
def readIgnoreFiles (directory : List String) : IO (List (List String × Entry)) := do
  let mut found := []
  for count in List.range directory.length do
    for name in [".ignore", ".gitignore", ".git", ".jj"] do
      let names := directory.take count ++ [name]
      let path := "/" ++ Text.joinWith "/" names
      if let some entry ← readEntry? path (if name == ".jj" then ".git" else name) then
        found := (names, entry) :: found
  return found

def applyChange : DiskChange → IO Unit
  | .writeFile path data => IO.FS.writeBinFile path data
  | .makeDir path => IO.FS.createDirAll path
  | .remove path => do
    let place ← IO.FS.realPath path
    if ← place.isDir then IO.FS.removeDirAll path else IO.FS.removeFile path

def runCommand (invocation : Invocation) : IO UInt32 := do
  let here := Path.names (← IO.currentDir).toString
  let directory := Path.resolve here invocation.root
  let root ← readEntry? invocation.root ""
  let tree := (← readIgnoreFiles directory).foldl (fun tree (names, entry) => tree.put names entry)
    (Entry.put (.dir []) here (.dir []))
  let tree := match root with
    | some entry => tree.put directory entry
    | none => tree
  let now := (← Std.Time.Timestamp.now).toNanosecondsSinceUnixEpoch.val.toNat
  let result := Project.run ⟨⟨tree, here⟩, invocation.root⟩ now invocation.command
  for change in DiskChange.between invocation.root root (result.project.disk.tree.at? directory) do
    applyChange change
  IO.print result.output
  if let some failure := result.failure then IO.eprint failure.report
  return result.status.toUInt32

def main (words : List String) : IO UInt32 := do
  match Invocation.read words with
  | .ok invocation => runCommand invocation
  | .error (.help topic) =>
    IO.print topic.page
    return 0
  | .error .misuse =>
    IO.eprintln ("Usage: " ++ HelpTopic.program.usage)
    return 2
