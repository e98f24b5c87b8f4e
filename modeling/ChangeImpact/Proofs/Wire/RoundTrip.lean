import ChangeImpact.Proofs.Wire.Change
import ChangeImpact.Proofs.Wire.Graph

/-!
# Round trips

All that is written as JSON is read back as it was, from the text on one line and from the text with
one value on each line, and a record holds the names of the fields that are set.
-/

namespace ChangeImpact

open Json (RoundTrips)

/-- Nodes with all kinds of facts, edges of all weights, groups, changes, patches and their results,
impact reports, issues and analyses are read back as they were written. What a record leaves out is
what is not set: a name or a type, a side of a change, the outcome of a patch, a suggestion, or
warnings when there are none. The numbers are those of 32 bits, and the totals those of 64 bits. -/
theorem wire_roundTrips :
    (∀ node : CodeNode, node.InRange →
      RoundTrips CodeNode.toJson CodeNode.ofJson? CodeNode.fieldNames (fun _ => true) node) ∧
    (∀ edge : Edge,
      RoundTrips Edge.toJson Edge.ofJson? ["id", "source", "target", "kind", "weight"]
        (fun _ => true) edge) ∧
    (∀ group : NodeGroup,
      RoundTrips NodeGroup.toJson NodeGroup.ofJson? ["id", "label", "nodeIds"]
        (fun _ => true) group) ∧
    (∀ value : ValueDescriptor,
      RoundTrips ValueDescriptor.toJson ValueDescriptor.ofJson? ["name", "type"]
        value.isSet value) ∧
    (∀ change : ChangeDescriptor,
      RoundTrips ChangeDescriptor.toJson ChangeDescriptor.ofJson?
        ["nodeId", "changeType", "before", "after"] change.isSet change) ∧
    (∀ patch : Patch, patch.InRange →
      RoundTrips Patch.toJson Patch.ofJson? Patch.fieldNames patch.isSet patch) ∧
    (∀ result : PatchApplyResult, result.InRange →
      RoundTrips PatchApplyResult.toJson PatchApplyResult.ofJson? PatchApplyResult.fieldNames
        (fun _ => true) result) ∧
    (∀ report : ImpactReport, report.InRange →
      RoundTrips ImpactReport.toJson ImpactReport.ofJson? ImpactReport.fieldNames report.isSet
        report) ∧
    (∀ issue : CoherenceIssue,
      RoundTrips CoherenceIssue.toJson CoherenceIssue.ofJson?
        ["id", "kind", "severity", "nodeIds", "message", "suggestion"] issue.isSet issue) ∧
    (∀ result : GraphAnalysisResult, result.InRange →
      RoundTrips GraphAnalysisResult.toJson GraphAnalysisResult.ofJson?
        ["nodes", "edges", "groups", "metadata"] (fun _ => true) result) := by
  have all : ∀ fields : List String, fields = fields.filter fun _ => true :=
    fun fields => (List.filter_eq_self.mpr fun _ _ => rfl).symm
  refine ⟨fun node range => ?node, fun edge => ?edge, fun group => ?group, fun value => ?value,
    fun change => ?change, fun patch range => ?patch, fun result range => ?result,
    fun report range => ?report, fun issue => ?issue, fun result range => ?analysis⟩
  case node =>
    exact (CodeNode.lawful 0 range).roundTrips (by decide) (node.keys_toJson.trans (all _))
  case edge => exact (edge.lawful 0).roundTrips (by decide) (edge.keys_toJson.trans (all _))
  case group => exact (group.lawful 0).roundTrips (by decide) (group.keys_toJson.trans (all _))
  case value => exact (value.lawful 0).roundTrips (by decide) value.keys_toJson
  case change => exact (change.lawful 0).roundTrips (by decide) change.keys_toJson
  case patch => exact (Patch.lawful 0 range).roundTrips (by decide) patch.keys_toJson
  case result =>
    exact (PatchApplyResult.lawful 0 range).roundTrips (by decide)
      (result.keys_toJson.trans (all _))
  case report => exact (ImpactReport.lawful 0 range).roundTrips (by decide) report.keys_toJson
  case issue => exact (issue.lawful 0).roundTrips (by decide) issue.keys_toJson
  case analysis =>
    exact (GraphAnalysisResult.lawful 0 range).roundTrips (by decide)
      (result.keys_toJson.trans (all _))

/-- A node of a class, a patch that was applied, and what holds them. -/
theorem wire_roundTrips_class_and_patch :
    let node : CodeNode :=
      { id := "src/store.ts", kind := .classDef, name := "Store", path := "src/store.ts",
        lineCount := 40, complexity := 3, imports := [⟨"get", "./api", .named, 1⟩],
        exports := [⟨"Store", .named, 4⟩], facts := .classBody ["load"] [⟨"url", "string", true⟩] }
    let patch : Patch :=
      { id := "patch-1", path := "src/store.ts", line := 7, oldCode := "\tget(\"a\")",
        newCode := "", description := "drop the call", autoFixable := true, applied := some true }
    let report : ImpactReport :=
      { targetNode := "src/api.ts",
        change :=
          { nodeId := "src/api.ts", changeType := .rename, before := some ⟨some "get", none⟩ },
        directImpact :=
          [⟨"src/store.ts", "src/store.ts", "Store", .classDef, [1, 7], true, "calls"⟩],
        transitiveImpact := [],
        breakingChanges := [⟨"src/store.ts", "src/store.ts", 7, "get", "gone"⟩],
        suggestedFixes := [patch], riskLevel := .medium, warnings := [] }
    let result : PatchApplyResult := ⟨true, [patch], [], [], ["src/store.ts"]⟩
    let analysis : GraphAnalysisResult :=
      { nodes := [node], edges := [⟨"e", "a", "b", .imports, Weight.ofNat 3⟩], groups := [],
        metadata :=
          ⟨"shop", 1, 1, 1, 98, [⟨"orphan-1", .orphanedFile, .medium, ["a"], "m", none⟩]⟩ }
    RoundTrips CodeNode.toJson CodeNode.ofJson? CodeNode.fieldNames (fun _ => true) node ∧
      RoundTrips Patch.toJson Patch.ofJson? Patch.fieldNames patch.isSet patch ∧
      RoundTrips PatchApplyResult.toJson PatchApplyResult.ofJson? PatchApplyResult.fieldNames
        (fun _ => true) result ∧
      RoundTrips ImpactReport.toJson ImpactReport.ofJson? ImpactReport.fieldNames report.isSet
        report ∧
      RoundTrips GraphAnalysisResult.toJson GraphAnalysisResult.ofJson?
        ["nodes", "edges", "groups", "metadata"] (fun _ => true) analysis := by
  obtain ⟨ofNode, -, -, -, -, ofPatch, ofResult, ofReport, -, ofAnalysis⟩ := wire_roundTrips
  intro node patch report result analysis
  have nodeRange : node.InRange :=
    ⟨by decide, by decide, by simp [node, ImportRef.InRange], by simp [node, ExportRef.InRange]⟩
  have patchRange : patch.InRange := by simp [patch, Patch.InRange]
  refine ⟨ofNode node nodeRange, ofPatch patch patchRange, ofResult result ⟨?_, ?_⟩,
    ofReport report ⟨?_, ?_, ?_, ?_⟩, ofAnalysis analysis ⟨?_, ⟨?_, ?_, ?_, ?_⟩⟩⟩
  · simp [result, patchRange]
  · simp [result]
  · simp [report, ImpactedNode.InRange]
  · simp [report]
  · simp [report, BreakingChange.InRange]
  · simp [report, patchRange]
  · simp [analysis, nodeRange]
  · decide
  · decide
  · decide
  · decide

end ChangeImpact
