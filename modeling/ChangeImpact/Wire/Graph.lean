import ChangeImpact.Coherence
import ChangeImpact.Graph.Group
import ChangeImpact.Wire.Node

/-!
# Edges, groups and coherence as JSON
-/

namespace ChangeImpact

open Json (required optional? fullRecord? record? str? list? named? weight?)

def Edge.toJson (edge : Edge) : Json :=
  .obj [("id", .str edge.id), ("source", .str edge.source), ("target", .str edge.target),
    ("kind", .str edge.kind.name), ("weight", .weight edge.weight)]

def Edge.ofJson? (json : Json) : Option Edge := do
  let members ← record? ["id", "source", "target", "kind", "weight"] json
  return {
    id := ← required str? "id" members
    source := ← required str? "source" members
    target := ← required str? "target" members
    kind := ← required (named? EdgeKind.all EdgeKind.name) "kind" members
    weight := ← required weight? "weight" members }

def NodeGroup.toJson (group : NodeGroup) : Json :=
  .obj [("id", .str group.id), ("label", .str group.label), ("nodeIds", .strings group.nodeIds)]

def NodeGroup.ofJson? (json : Json) : Option NodeGroup := do
  let members ← record? ["id", "label", "nodeIds"] json
  return {
    id := ← required str? "id" members
    label := ← required str? "label" members
    nodeIds := ← required (list? str?) "nodeIds" members }

def CoherenceIssue.toJson (issue : CoherenceIssue) : Json :=
  .obj ([("id", .str issue.id), ("kind", .str issue.kind.name),
    ("severity", .str issue.severity.name), ("nodeIds", .strings issue.nodeIds),
    ("message", .str issue.message)] ++ Json.optional "suggestion" .str issue.suggestion)

def CoherenceIssue.ofJson? (json : Json) : Option CoherenceIssue := do
  let members ← fullRecord? ["id", "kind", "severity", "nodeIds", "message", "suggestion"] json
  return {
    id := ← required str? "id" members
    kind := ← required (named? IssueKind.all IssueKind.name) "kind" members
    severity := ← required (named? Severity.all Severity.name) "severity" members
    nodeIds := ← required (list? str?) "nodeIds" members
    message := ← required str? "message" members
    suggestion := ← optional? str? "suggestion" members }

def CoherenceReport.toJson (report : CoherenceReport) : Json :=
  .obj [("score", .nat report.score), ("issues", .list CoherenceIssue.toJson report.issues)]

end ChangeImpact
