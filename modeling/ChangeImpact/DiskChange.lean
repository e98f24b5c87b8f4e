import ChangeImpact.Disk

/-!
# Changes of a tree of files

What has to be written and removed to turn one tree of files into another. A directory is made
before what it holds.
-/

namespace ChangeImpact

inductive DiskChange where
  | writeFile (path : String) (data : ByteArray)
  | makeDir (path : String)
  | remove (path : String)

namespace DiskChange

mutual

/-- The changes that put an entry at a path where another one or nothing stands. -/
def toEntry (path : String) (old : Option Entry) : Entry → List DiskChange
  | .file data =>
    match old with
    | some (.file before) => if before.data == data.data then [] else [.writeFile path data]
    | some (.dir _) => [.remove path, .writeFile path data]
    | none => [.writeFile path data]
  | .dir entries =>
    let before := (old.map Entry.entries).getD []
    let made :=
      match old with
      | some (.dir _) => []
      | some (.file _) => [.remove path, .makeDir path]
      | none => [.makeDir path]
    let gone := before.filter fun (name, _) => (entries.lookup name).isNone
    made ++ gone.map (fun (name, _) => .remove (Path.join path name)) ++
      toEntries path before entries

def toEntries (path : String) (before : List (String × Entry)) :
    List (String × Entry) → List DiskChange
  | [] => []
  | (name, entry) :: rest =>
    toEntry (Path.join path name) (before.lookup name) entry ++ toEntries path before rest

end

/-- The changes that turn what stands at a path into what shall stand there. -/
def between (path : String) (old new : Option Entry) : List DiskChange :=
  match new, old with
  | some entry, _ => toEntry path old entry
  | none, some _ => [.remove path]
  | none, none => []

end DiskChange

end ChangeImpact
