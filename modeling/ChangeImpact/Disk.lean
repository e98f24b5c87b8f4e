import ChangeImpact.Path
import ChangeImpact.Store

/-!
# A tree of files

Files and directories as a value, with the operations of a file system on it. Paths are looked up
part by part from the current directory: every part but the last has to be a directory, `.` and
empty parts stay, and `..` goes up.
-/

namespace ChangeImpact

inductive Entry where
  | file (data : ByteArray)
  | dir (entries : List (String × Entry))

namespace IoError

def noEntry : IoError := ⟨.notFound, "No such file or directory (os error 2)"⟩

def alreadyThere : IoError := ⟨.alreadyExists, "File exists (os error 17)"⟩

def notDirectory : IoError := ⟨.notADirectory, "Not a directory (os error 20)"⟩

def isDirectory : IoError := ⟨.isADirectory, "Is a directory (os error 21)"⟩

def nameTooLong : IoError := ⟨.invalidFilename, "File name too long (os error 36)"⟩

def invalidText : IoError := ⟨.invalidData, "stream did not contain valid UTF-8"⟩

def nulInPath : IoError := ⟨.invalidInput, "file name contained an unexpected NUL byte"⟩

end IoError

namespace Entry

def isDir : Entry → Bool
  | file _ => false
  | dir _ => true

/-- The entries of a directory; a file has none. -/
def entries : Entry → List (String × Entry)
  | file _ => []
  | dir entries => entries

def child? (entry : Entry) (name : String) : Option Entry :=
  entry.entries.lookup name

/-- What stands at the end of a list of names. -/
def at? : Entry → List String → Option Entry
  | entry, [] => some entry
  | entry, name :: rest => (entry.child? name).bind (at? · rest)

def setEntry (name : String) (entry : Entry) : List (String × Entry) → List (String × Entry)
  | [] => [(name, entry)]
  | (other, old) :: rest =>
    if other = name then (name, entry) :: rest else (other, old) :: setEntry name entry rest

/-- The tree with an entry at the end of a list of names; directories on the way are made. -/
def put : Entry → List String → Entry → Entry
  | _, [], entry => entry
  | tree, name :: rest, entry =>
    dir (setEntry name (put ((tree.child? name).getD (dir [])) rest entry) tree.entries)

def erase : Entry → List String → Entry
  | tree, [] => tree
  | file data, _ => file data
  | dir entries, [name] => dir (entries.filter (·.1 != name))
  | dir entries, name :: rest =>
    match entries.lookup name with
    | some child => dir (setEntry name (erase child rest) entries)
    | none => dir entries

mutual

def files (names : List String) : Entry → List (List String × ByteArray)
  | file data => [(names, data)]
  | dir entries => filesAmong names entries

def filesAmong (names : List String) : List (String × Entry) → List (List String × ByteArray)
  | [] => []
  | (name, entry) :: rest => files (names ++ [name]) entry ++ filesAmong names rest

end

end Entry

/-- A tree of files and the directory that relative paths begin at. -/
structure Disk where
  tree : Entry
  here : List String

/-- Where a path leads: the names from the root of the tree, and what stands there. -/
structure Location where
  names : List String
  entry : Option Entry

namespace Disk

/-- Looks up the parts of a path from a directory whose names are given in reverse. -/
def locateFrom (tree : Entry) (above : List String) : List String → Except IoError Location
  | [] => .ok ⟨above.reverse, tree.at? above.reverse⟩
  | segment :: rest =>
    match tree.at? above.reverse with
    | none => .error .noEntry
    | some (.file _) => .error .notDirectory
    | some (.dir _) =>
      if segment == "" || segment == "." then locateFrom tree above rest
      else if segment == ".." then locateFrom tree above.tail rest
      else if 255 < segment.utf8ByteSize then .error .nameTooLong
      else locateFrom tree (segment :: above) rest

def pathLimit : Nat := 4096

def locate (disk : Disk) (path : String) : Except IoError Location :=
  if path.toList.contains (Char.ofNat 0) then .error .nulInPath
  else if pathLimit ≤ path.utf8ByteSize then .error .nameTooLong
  else if path == "" then .error .noEntry
  else
    let above := if path.toList.head? == some '/' then [] else disk.here.reverse
    locateFrom disk.tree above (Path.segments path)

def find (disk : Disk) (path : String) : Except IoError Entry :=
  match disk.locate path with
  | .error error => .error error
  | .ok location =>
    match location.entry with
    | some entry => .ok entry
    | none => .error .noEntry

def has (disk : Disk) (path : String) : Bool :=
  (disk.find path).toOption.isSome

def isDir (disk : Disk) (path : String) : Bool :=
  (disk.find path).toOption.any Entry.isDir

/-- The size that is reported of a directory. -/
def directorySize : Nat := 4096

def size (disk : Disk) (path : String) : Except IoError Nat :=
  (disk.find path).map fun entry =>
    match entry with
    | .file data => data.size
    | .dir _ => directorySize

def readBytes (disk : Disk) (path : String) : Except IoError ByteArray :=
  match disk.find path with
  | .error error => .error error
  | .ok (.file data) => .ok data
  | .ok (.dir _) => .error .isDirectory

def readText (disk : Disk) (path : String) : Except IoError String :=
  match disk.readBytes path with
  | .error error => .error error
  | .ok data =>
    match String.fromUTF8? data with
    | some text => .ok text
    | none => .error .invalidText

/-- Writes a file. The directory that it stands in has to be there, and a path with a slash at its
end names no file. -/
def writeText (disk : Disk) (path content : String) : Except IoError Disk :=
  match disk.locate (Path.withoutFinalSlashes path) with
  | .error error => .error error
  | .ok ⟨_, some (.dir _)⟩ => .error .isDirectory
  | .ok ⟨names, _⟩ =>
    if path.toList.getLast? == some '/' then .error .isDirectory
    else .ok { disk with tree := disk.tree.put names (.file content.toUTF8) }

def makeDir (disk : Disk) (path : String) : Except IoError Disk :=
  match disk.locate path with
  | .error error => .error error
  | .ok ⟨_, some _⟩ => .error .alreadyThere
  | .ok ⟨names, none⟩ => .ok { disk with tree := disk.tree.put names (.dir []) }

def makeDirsAux (disk : Disk) : Nat → List String → Except IoError Disk
  | 0, _ => .error .noEntry
  | fuel + 1, components =>
    let path := Text.joinWith "/" components
    match disk.makeDir path with
    | .ok disk => .ok disk
    | .error error =>
      if error.kind == .notFound then
        match makeDirsAux disk fuel components.dropLast with
        | .ok disk =>
          match disk.makeDir path with
          | .ok disk => .ok disk
          | .error error => if disk.isDir path then .ok disk else .error error
        | .error error => .error error
      else if disk.isDir path then .ok disk
      else .error error

/-- Makes a directory and those above it that are missing. One that is there is left alone. -/
def makeDirs (disk : Disk) (path : String) : Except IoError Disk :=
  makeDirsAux disk (Path.segments path).length (Path.segments path)

def removeDir (disk : Disk) (path : String) : Except IoError Disk :=
  match disk.locate path with
  | .error error => .error error
  | .ok ⟨names, some (.dir _)⟩ => .ok { disk with tree := disk.tree.erase names }
  | .ok ⟨_, some (.file _)⟩ => .error .notDirectory
  | .ok ⟨_, none⟩ => .error .noEntry

/-- The name of the directory a path leads to, free of `.` and `..`. -/
def directoryName? (disk : Disk) (path : String) : Option String :=
  match disk.locate path with
  | .ok ⟨names, some _⟩ => names.getLast?
  | _ => (Path.components path).getLast?.filter fun name => Path.isName name && name != "/"

end Disk

end ChangeImpact
