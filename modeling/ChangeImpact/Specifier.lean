import ChangeImpact.Graph.Basic
import ChangeImpact.Path

/-!
# Import specifiers

What the text after `from` stands for. A specifier that begins with `./` or `../` is read from the
directory of the importing file, one that begins with the alias prefix from the alias root, and any
other one names a package and no file of the project. The path found is tried as it is and then with
each source suffix.
-/

namespace ChangeImpact

/-- The alias prefix of a project and the directory it stands for. An empty prefix is no alias. -/
structure ImportResolver where
  aliasPrefix : String
  aliasRoot : String
  deriving DecidableEq, Repr

namespace ImportResolver

def suffixes : List String :=
  [".ts", ".tsx", ".js", ".jsx", "/index.ts", "/index.tsx", "/index.js", "/index.jsx"]

/-- Walks along segments from a directory given by its names in reverse. Empty segments and `.`
stay, `..` goes up, and going up from the root fails. -/
def walk : List String → List String → Option (List String)
  | here, [] => some here
  | here, segment :: rest =>
    if segment == "" || segment == "." then walk here rest
    else if segment == ".." then
      match here with
      | [] => none
      | _ :: above => walk above rest
    else walk (segment :: here) rest

/-- The path reached from a directory, unless it leaves the root or stays at it. -/
def reach? (directory relative : String) : Option String :=
  match walk ((Path.segments directory).filter (· != "")).reverse (Path.segments relative) with
  | none => none
  | some [] => none
  | some names => some (Text.joinWith "/" names.reverse)

def isRelative (specifier : String) : Bool :=
  Text.startsWithWord "./".toList specifier.toList ||
    Text.startsWithWord "../".toList specifier.toList

/-- The path a specifier stands for in the file at `containing`, before suffixes are tried. -/
def basePath? (resolver : ImportResolver) (specifier containing : String) : Option String :=
  if isRelative specifier then reach? ((Path.parent? containing).getD "") specifier
  else if resolver.aliasPrefix == "" then none
  else
    match Text.dropWord? resolver.aliasPrefix.toList specifier.toList with
    | some rest => reach? resolver.aliasRoot (String.ofList rest)
    | none => none

def candidates (base : String) : List NodeId :=
  base :: suffixes.map (base ++ ·)

/-- The node a specifier stands for in the file at `containing`: the first candidate there is. -/
def resolve? (resolver : ImportResolver) (graph : DependencyGraph) (specifier containing : String) :
    Option NodeId :=
  (resolver.basePath? specifier containing).bind fun base => (candidates base).find? graph.contains

end ImportResolver

end ChangeImpact
