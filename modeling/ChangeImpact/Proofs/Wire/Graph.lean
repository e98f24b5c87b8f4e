import ChangeImpact.Proofs.Wire.Node
import ChangeImpact.Wire.Analysis

/-!
# Graphs and their analysis in JSON

Edges are read back with their weights, and the result of an analysis with all nodes, edges, groups
and issues.
-/

namespace ChangeImpact

open Json (Lawful record?_obj record?_all required optional?_of_lookup)

/-! ## Edges and groups -/

theorem EdgeKind.find?_name (kind : EdgeKind) :
    EdgeKind.all.find? (·.name == kind.name) = some kind := by
  cases kind <;> rfl

theorem Edge.keys_toJson (edge : Edge) :
    edge.toJson.keys = ["id", "source", "target", "kind", "weight"] := by
  simp only [Edge.toJson, Json.keys, List.map_cons, List.map_nil]

theorem Edge.lawful (depth : Nat) (edge : Edge) :
    Lawful (depth + 1) Edge.toJson Edge.ofJson? edge := by
  have kind := Lawful.named depth edge.kind.find?_name
  have weight := Lawful.weight depth edge.weight
  refine ⟨.obj ?_, ?_⟩
  · simp [Json.Fits.str, weight.fits]
  · have members := record?_all (by decide) edge.keys_toJson
    rw [Edge.ofJson?, Edge.toJson, members]
    -- Each step is proved, since a check by reduction would enter the powers of a weight.
    simp -implicitDefEqProofs [required, List.lookup_cons, Json.str?, kind.reads, weight.reads]

theorem NodeGroup.keys_toJson (group : NodeGroup) :
    group.toJson.keys = ["id", "label", "nodeIds"] :=
  rfl

theorem NodeGroup.lawful (depth : Nat) (group : NodeGroup) :
    Lawful (depth + 2) NodeGroup.toJson NodeGroup.ofJson? group := by
  have nodeIds := Lawful.strings depth group.nodeIds
  refine ⟨.obj ?_, ?_⟩
  · simp [Json.Fits.str, nodeIds.fits]
  · have members := record?_all (by decide) group.keys_toJson
    rw [NodeGroup.ofJson?, NodeGroup.toJson, members]
    simp [required, List.lookup_cons, Json.str?, nodeIds.reads]

/-! ## Coherence -/

theorem IssueKind.find?_name (kind : IssueKind) :
    IssueKind.all.find? (·.name == kind.name) = some kind := by
  cases kind <;> rfl

theorem Severity.find?_name (severity : Severity) :
    Severity.all.find? (·.name == severity.name) = some severity := by
  cases severity <;> rfl

def CoherenceIssue.isSet (issue : CoherenceIssue) : String → Bool
  | "suggestion" => issue.suggestion.isSome
  | _ => true

theorem CoherenceIssue.keys_toJson (issue : CoherenceIssue) :
    issue.toJson.keys =
      ["id", "kind", "severity", "nodeIds", "message", "suggestion"].filter issue.isSet := by
  obtain ⟨id, kind, severity, nodeIds, message, suggestion⟩ := issue
  cases suggestion <;> rfl

theorem CoherenceIssue.lawful (depth : Nat) (issue : CoherenceIssue) :
    Lawful (depth + 2) CoherenceIssue.toJson CoherenceIssue.ofJson? issue := by
  have kind := Lawful.named (depth + 1) issue.kind.find?_name
  have severity := Lawful.named (depth + 1) issue.severity.find?_name
  have nodeIds := Lawful.strings depth issue.nodeIds
  have suggestion : ∀ text ∈ issue.suggestion, Lawful (depth + 1) .str Json.str? text :=
    fun text _ => .str (depth + 1) text
  refine ⟨.obj ?_, ?_⟩
  · simp only [List.forall_mem_append, Json.forall_mem_optional]
    refine ⟨?_, fun text set => (suggestion text set).fits⟩
    simp [Json.Fits.str, nodeIds.fits]
  · have members := record?_obj (by decide) issue.keys_toJson
    rw [CoherenceIssue.ofJson?, CoherenceIssue.toJson, Json.fullRecord?, members]
    · simp only [Option.bind_eq_bind, Option.bind_some]
      rw [optional?_of_lookup ?_ rfl suggestion]
      · simp [required, List.lookup_cons, Json.str?, kind.reads, severity.reads, nodeIds.reads]
      · simp [List.lookup_cons]
    · intro items same
      cases same

/-! ## Analysis -/

/-- The counts are numbers of 64 bits, and the score one of 32 bits. -/
structure AnalysisMetadata.InRange (metadata : AnalysisMetadata) : Prop where
  totalFiles : metadata.totalFiles < 0x10000000000000000
  totalNodes : metadata.totalNodes < 0x10000000000000000
  totalEdges : metadata.totalEdges < 0x10000000000000000
  coherenceScore : metadata.coherenceScore < 0x100000000

theorem AnalysisMetadata.keys_toJson (metadata : AnalysisMetadata) :
    metadata.toJson.keys = AnalysisMetadata.fieldNames :=
  rfl

theorem AnalysisMetadata.lawful (depth : Nat) {metadata : AnalysisMetadata}
    (range : metadata.InRange) :
    Lawful (depth + 4) AnalysisMetadata.toJson AnalysisMetadata.ofJson? metadata := by
  have files := Lawful.nat64 (depth + 3) range.totalFiles
  have nodes := Lawful.nat64 (depth + 3) range.totalNodes
  have edges := Lawful.nat64 (depth + 3) range.totalEdges
  have score := Lawful.nat32 (depth + 3) range.coherenceScore
  have issues : Lawful (depth + 3) _ _ metadata.issues := .list fun issue _ => issue.lawful depth
  refine ⟨.obj ?_, ?_⟩
  · simp [Json.Fits.str, files.fits, nodes.fits, edges.fits, score.fits, issues.fits]
  · have members := record?_all (by decide) metadata.keys_toJson
    rw [AnalysisMetadata.ofJson?, AnalysisMetadata.toJson, members]
    simp [required, List.lookup_cons, Json.str?, files.reads, nodes.reads, edges.reads, score.reads,
      issues.reads]

structure GraphAnalysisResult.InRange (result : GraphAnalysisResult) : Prop where
  nodes : ∀ node ∈ result.nodes, node.InRange
  metadata : result.metadata.InRange

theorem GraphAnalysisResult.keys_toJson (result : GraphAnalysisResult) :
    result.toJson.keys = ["nodes", "edges", "groups", "metadata"] :=
  rfl

theorem GraphAnalysisResult.lawful (depth : Nat) {result : GraphAnalysisResult}
    (range : result.InRange) :
    Lawful (depth + 6) GraphAnalysisResult.toJson GraphAnalysisResult.ofJson? result := by
  have nodes : Lawful (depth + 5) _ _ result.nodes :=
    .list fun node mem => CodeNode.lawful depth (range.nodes node mem)
  have edges : Lawful (depth + 5) _ _ result.edges := .list fun edge _ => edge.lawful (depth + 3)
  have groups : Lawful (depth + 5) _ _ result.groups :=
    .list fun group _ => group.lawful (depth + 2)
  have metadata := AnalysisMetadata.lawful (depth + 1) range.metadata
  refine ⟨.obj ?_, ?_⟩
  · simp [nodes.fits, edges.fits, groups.fits, metadata.fits]
  · have members := record?_all (by decide) result.keys_toJson
    rw [GraphAnalysisResult.ofJson?, GraphAnalysisResult.toJson, members]
    simp [required, List.lookup_cons, nodes.reads, edges.reads, groups.reads, metadata.reads]

end ChangeImpact
