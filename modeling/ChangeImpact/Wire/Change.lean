import ChangeImpact.Change
import ChangeImpact.Impact.Report
import ChangeImpact.Json.Basic

/-!
# Changes, patches and impact reports as JSON
-/

namespace ChangeImpact

open Json (required optional optional? defaulted record? str? bool? nat32? list? named?)

def ValueDescriptor.toJson (value : ValueDescriptor) : Json :=
  .obj (optional "name" .str value.name ++ optional "type" .str value.typeName)

def ValueDescriptor.ofJson? (json : Json) : Option ValueDescriptor := do
  let members ← record? ["name", "type"] json
  return {
    name := ← optional? str? "name" members
    typeName := ← optional? str? "type" members }

def ChangeDescriptor.toJson (change : ChangeDescriptor) : Json :=
  .obj ([("nodeId", .str change.nodeId), ("changeType", .str change.changeType.name)] ++
    optional "before" ValueDescriptor.toJson change.before ++
    optional "after" ValueDescriptor.toJson change.after)

def ChangeDescriptor.ofJson? (json : Json) : Option ChangeDescriptor := do
  let members ← record? ["nodeId", "changeType", "before", "after"] json
  return {
    nodeId := ← required str? "nodeId" members
    changeType := ← required (named? ChangeKind.all ChangeKind.name) "changeType" members
    before := ← optional? ValueDescriptor.ofJson? "before" members
    after := ← optional? ValueDescriptor.ofJson? "after" members }

def Patch.toJson (patch : Patch) : Json :=
  .obj ([("id", .str patch.id), ("path", .str patch.path), ("line", .nat patch.line),
    ("oldCode", .str patch.oldCode), ("newCode", .str patch.newCode),
    ("description", .str patch.description), ("autoFixable", .bool patch.autoFixable)] ++
    optional "applied" .bool patch.applied ++ optional "error" .str patch.error)

def Patch.fieldNames : List String :=
  ["id", "path", "line", "oldCode", "newCode", "description", "autoFixable", "applied", "error"]

def Patch.ofJson? (json : Json) : Option Patch := do
  let members ← record? Patch.fieldNames json
  return {
    id := ← required str? "id" members
    path := ← required str? "path" members
    line := ← required nat32? "line" members
    oldCode := ← required str? "oldCode" members
    newCode := ← required str? "newCode" members
    description := ← required str? "description" members
    autoFixable := ← required bool? "autoFixable" members
    applied := ← optional? bool? "applied" members
    error := ← optional? str? "error" members }

def PatchApplyResult.toJson (result : PatchApplyResult) : Json :=
  .obj [("success", .bool result.success),
    ("patchesApplied", .list Patch.toJson result.patchesApplied),
    ("patchesFailed", .list Patch.toJson result.patchesFailed),
    ("errors", .strings result.errors), ("filesModified", .strings result.filesModified)]

def PatchApplyResult.fieldNames : List String :=
  ["success", "patchesApplied", "patchesFailed", "errors", "filesModified"]

def PatchApplyResult.ofJson? (json : Json) : Option PatchApplyResult := do
  let members ← record? PatchApplyResult.fieldNames json
  return {
    success := ← required bool? "success" members
    patchesApplied := ← required (list? Patch.ofJson?) "patchesApplied" members
    patchesFailed := ← required (list? Patch.ofJson?) "patchesFailed" members
    errors := ← required (list? str?) "errors" members
    filesModified := ← required (list? str?) "filesModified" members }

def ImpactedNode.toJson (node : ImpactedNode) : Json :=
  .obj [("nodeId", .str node.nodeId), ("path", .str node.path), ("name", .str node.name),
    ("kind", .str node.kind.name), ("lines", .list .nat node.lines),
    ("breaking", .bool node.breaking), ("reason", .str node.reason)]

def ImpactedNode.ofJson? (json : Json) : Option ImpactedNode := do
  let members ← record? ["nodeId", "path", "name", "kind", "lines", "breaking", "reason"] json
  return {
    nodeId := ← required str? "nodeId" members
    path := ← required str? "path" members
    name := ← required str? "name" members
    kind := ← required (named? NodeKind.all NodeKind.name) "kind" members
    lines := ← required (list? nat32?) "lines" members
    breaking := ← required bool? "breaking" members
    reason := ← required str? "reason" members }

def BreakingChange.toJson (change : BreakingChange) : Json :=
  .obj [("nodeId", .str change.nodeId), ("path", .str change.path), ("line", .nat change.line),
    ("code", .str change.code), ("reason", .str change.reason)]

def BreakingChange.ofJson? (json : Json) : Option BreakingChange := do
  let members ← record? ["nodeId", "path", "line", "code", "reason"] json
  return {
    nodeId := ← required str? "nodeId" members
    path := ← required str? "path" members
    line := ← required nat32? "line" members
    code := ← required str? "code" members
    reason := ← required str? "reason" members }

namespace ImpactReport

def toJson (report : ImpactReport) : Json :=
  .obj ([("targetNode", .str report.targetNode), ("change", report.change.toJson),
    ("directImpact", .list ImpactedNode.toJson report.directImpact),
    ("transitiveImpact", .list ImpactedNode.toJson report.transitiveImpact),
    ("breakingChanges", .list BreakingChange.toJson report.breakingChanges),
    ("suggestedFixes", .list Patch.toJson report.suggestedFixes),
    ("riskLevel", .str report.riskLevel.name)] ++
    if report.warnings.isEmpty then [] else [("warnings", .strings report.warnings)])

def fieldNames : List String :=
  ["targetNode", "change", "directImpact", "transitiveImpact", "breakingChanges", "suggestedFixes",
    "riskLevel", "warnings"]

def ofJson? (json : Json) : Option ImpactReport := do
  let members ← record? fieldNames json
  return {
    targetNode := ← required str? "targetNode" members
    change := ← required ChangeDescriptor.ofJson? "change" members
    directImpact := ← required (list? ImpactedNode.ofJson?) "directImpact" members
    transitiveImpact := ← required (list? ImpactedNode.ofJson?) "transitiveImpact" members
    breakingChanges := ← required (list? BreakingChange.ofJson?) "breakingChanges" members
    suggestedFixes := ← required (list? Patch.ofJson?) "suggestedFixes" members
    riskLevel := ← required (named? RiskLevel.all RiskLevel.name) "riskLevel" members
    warnings := ← defaulted (list? str?) [] "warnings" members }

end ImpactReport

end ChangeImpact
