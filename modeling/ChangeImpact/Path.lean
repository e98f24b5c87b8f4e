import ChangeImpact.Node
import ChangeImpact.Text.Cut

/-!
# Paths

Paths are texts with `/` between their parts. A part that is empty, `.` or `..` names no file. The
parts of a path that do name files, joined again, identify the file within its project.
-/

namespace ChangeImpact

namespace Path

def segments (path : String) : List String :=
  Text.splitString '/' path

def isName (segment : String) : Bool :=
  segment != "" && segment != "." && segment != ".."

def names (path : String) : List String :=
  (segments path).filter isName

/-- The components that a path is looked up by: the root if it begins with a slash, a leading `.`,
every `..`, and the names. -/
def components (path : String) : List String :=
  match segments path with
  | [] => []
  | first :: later =>
    let front :=
      if first == "" then (if later.isEmpty then [] else ["/"])
      else [first]
    front ++ later.filter fun segment => segment != "" && segment != "."

def parent? (path : String) : Option String :=
  (Text.cutAtLast? '/' path.toList).map fun (front, _) => String.ofList front

def fileName (path : String) : String :=
  match Text.cutAtLast? '/' path.toList with
  | some (_, rest) => String.ofList rest
  | none => path

/-- The names from the root of the disk to the end of a path looked up from a directory. -/
def resolve (here : List String) (path : String) : List String :=
  (segments path).foldl
    (fun names segment =>
      if segment == "" || segment == "." then names
      else if segment == ".." then names.dropLast
      else names ++ [segment])
    (if path.toList.head? == some '/' then [] else here)

/-- A path without the slashes at its end; a path of slashes keeps one. -/
def withoutFinalSlashes (path : String) : String :=
  match path.toList.reverse.dropWhile (· == '/') with
  | [] => if path == "" then "" else "/"
  | front => String.ofList front.reverse

/-- A path below a directory; an absolute path stands for itself. -/
def join (directory path : String) : String :=
  match path.toList with
  | '/' :: _ => path
  | _ =>
    match directory.toList.getLast? with
    | none => path
    | some '/' => directory ++ path
    | some _ => directory ++ "/" ++ path

end Path

def NodeId.ofPath (path : String) : NodeId :=
  Text.joinWith "/" (Path.names path)

/-- A path that is the identifier of its own file: names with single slashes between them. -/
def Path.IsCanonical (path : String) : Prop :=
  path ≠ "" ∧ ∀ segment ∈ Path.segments path, Path.isName segment = true

instance (path : String) : Decidable (Path.IsCanonical path) :=
  inferInstanceAs (Decidable (_ ∧ _))

end ChangeImpact
