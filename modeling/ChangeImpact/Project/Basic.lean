import ChangeImpact.Disk

/-!
# Projects

A project is a directory on a disk. Its files are named by their paths from its root.
-/

namespace ChangeImpact

structure Project where
  disk : Disk
  root : String

namespace Project

def path (project : Project) (relative : String) : String :=
  Path.join project.root relative

def has (project : Project) (relative : String) : Bool :=
  project.disk.has (project.path relative)

def read (project : Project) (relative : String) : Except IoError String :=
  project.disk.readText (project.path relative)

def write (project : Project) (relative content : String) : Except IoError Project :=
  (project.disk.writeText (project.path relative) content).map fun disk => { project with disk }

instance : SourceStore Project where
  read := read
  write := write
  has := has

end Project

end ChangeImpact
