import ChangeImpact.Json.Basic
import ChangeImpact.Node

/-!
# Nodes as JSON
-/

namespace ChangeImpact

open Json (required optional record? str? bool? nat32? list? named?)

def ImportRef.toJson (ref : ImportRef) : Json :=
  .obj [("name", .str ref.name), ("source", .str ref.source), ("kind", .str ref.kind.name),
    ("line", .nat ref.line)]

def ImportRef.ofJson? (json : Json) : Option ImportRef := do
  let members ← record? ["name", "source", "kind", "line"] json
  return {
    name := ← required str? "name" members
    source := ← required str? "source" members
    kind := ← required (named? ImportKind.all ImportKind.name) "kind" members
    line := ← required nat32? "line" members }

def ExportRef.toJson (ref : ExportRef) : Json :=
  .obj [("name", .str ref.name), ("kind", .str ref.kind.name), ("line", .nat ref.line)]

def ExportRef.ofJson? (json : Json) : Option ExportRef := do
  let members ← record? ["name", "kind", "line"] json
  return {
    name := ← required str? "name" members
    kind := ← required (named? ExportKind.all ExportKind.name) "kind" members
    line := ← required nat32? "line" members }

def FieldDef.toJson (field : FieldDef) : Json :=
  .obj [("name", .str field.name), ("type", .str field.typeName),
    ("optional", .bool field.optional)]

def FieldDef.ofJson? (json : Json) : Option FieldDef := do
  let members ← record? ["name", "type", "optional"] json
  return {
    name := ← required str? "name" members
    typeName := ← required str? "type" members
    optional := ← required bool? "optional" members }

namespace NodeFacts

/-- The facts with the tag that tells what they are as their first member. -/
def toJson : NodeFacts → Json
  | none => .obj [("kind", .str "none")]
  | component props => .obj [("kind", .str "component"), ("props", .list FieldDef.toJson props)]
  | shape fields => .obj [("kind", .str "shape"), ("fields", .list FieldDef.toJson fields)]
  | api handlers =>
    .obj [("kind", .str "api"), ("handlers", .list (fun method => .str method.name) handlers)]
  | classBody methods fields =>
    .obj [("kind", .str "class"), ("methods", .strings methods),
      ("fields", .list FieldDef.toJson fields)]
  | enum members => .obj [("kind", .str "enum"), ("members", .strings members)]
  | hook hooks => .obj [("kind", .str "hook"), ("hooks", .strings hooks)]
  | context contexts => .obj [("kind", .str "context"), ("contexts", .strings contexts)]

def single? (name : String) (read : Json → Option α) (body : Json) : Option α := do
  required read name (← record? [name] body)

/-- The facts of a tag, from the record without its tag. -/
def ofTagged? (tag : String) (body : Json) : Option NodeFacts :=
  match tag with
  | "none" => (record? [] body).map fun _ => none
  | "component" => (single? "props" (list? FieldDef.ofJson?) body).map component
  | "shape" => (single? "fields" (list? FieldDef.ofJson?) body).map shape
  | "api" => (single? "handlers" (list? (named? HttpMethod.all HttpMethod.name)) body).map api
  | "class" => do
    let members ← record? ["methods", "fields"] body
    return classBody (← required (list? str?) "methods" members)
      (← required (list? FieldDef.ofJson?) "fields" members)
  | "enum" => (single? "members" (list? str?) body).map enum
  | "hook" => (single? "hooks" (list? str?) body).map hook
  | "context" => (single? "contexts" (list? str?) body).map context
  | _ => Option.none

def ofJson? : Json → Option NodeFacts
  | .obj members => do
    let members ← record? ["kind"] (.obj members)
    ofTagged? (← required str? "kind" members) (.obj (members.filter (·.1 != "kind")))
  | .arr (.str tag :: rest) => ofTagged? tag (.arr rest)
  | _ => Option.none

end NodeFacts

def CodeNode.toJson (node : CodeNode) : Json :=
  .obj [("id", .str node.id), ("kind", .str node.kind.name), ("name", .str node.name),
    ("path", .str node.path), ("lineCount", .nat node.lineCount),
    ("complexity", .nat node.complexity), ("imports", .list ImportRef.toJson node.imports),
    ("exports", .list ExportRef.toJson node.exports), ("facts", node.facts.toJson)]

def CodeNode.fieldNames : List String :=
  ["id", "kind", "name", "path", "lineCount", "complexity", "imports", "exports", "facts"]

def CodeNode.ofJson? (json : Json) : Option CodeNode := do
  let members ← record? CodeNode.fieldNames json
  return {
    id := ← required str? "id" members
    kind := ← required (named? NodeKind.all NodeKind.name) "kind" members
    name := ← required str? "name" members
    path := ← required str? "path" members
    lineCount := ← required nat32? "lineCount" members
    complexity := ← required nat32? "complexity" members
    imports := ← required (list? ImportRef.ofJson?) "imports" members
    exports := ← required (list? ExportRef.ofJson?) "exports" members
    facts := ← required NodeFacts.ofJson? "facts" members }

def SourceLocation.toJson (location : SourceLocation) : Json :=
  .obj [("path", .str location.path), ("line", .nat location.line)]

end ChangeImpact
