import ChangeImpact.Json.Parser
import ChangeImpact.Project.Basic

/-!
# Kind and name of a project

The kind of a project is told by the files at its root, and its name by its manifest.
-/

namespace ChangeImpact

inductive WorkspaceKind where
  | npm | pnpm | deno
  deriving DecidableEq, Repr

namespace Project

def workspace? (project : Project) : Option WorkspaceKind :=
  if project.has "pnpm-workspace.yaml" then some .pnpm
  else if project.has "package.json" then some .npm
  else if project.has "deno.json" then some .deno
  else none

/-- The name in a manifest, the last one if there are several. -/
def manifestName? (text : String) : Option String :=
  match Json.parse? text with
  | some (.obj members) => (members.reverse.lookup "name").bind Json.str?
  | _ => none

/-- The name in the manifest of a package, or else the name of the root directory. -/
def name (project : Project) : String :=
  let declared :=
    match project.workspace? with
    | some .npm | some .pnpm => (project.read "package.json").toOption.bind manifestName?
    | some .deno | none => none
  declared.getD ((project.disk.directoryName? project.root).getD "project")

end Project

end ChangeImpact
