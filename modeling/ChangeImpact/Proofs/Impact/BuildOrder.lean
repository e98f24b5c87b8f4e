import ChangeImpact.Impact.Analysis
import ChangeImpact.Proofs.Graph.Calls

/-!
# Reports and the order of building

A report asks a graph for the node of an identifier, for the dependents of a node, and for what a
specifier stands for. None of the answers depends on the order in which nodes and edges were added,
on how many edges join two nodes, or on their kinds and weights, so that the report does not either.
-/

namespace ChangeImpact

namespace DependencyGraph

/-- Two graphs have the same node under each identifier, and edges between the same nodes. -/
structure Matches (first second : DependencyGraph) : Prop where
  node? : ∀ id, first.node? id = second.node? id
  hasEdge : ∀ source target, first.HasEdge source target ↔ second.HasEdge source target

variable {first second : DependencyGraph}

theorem Matches.of_perm (nodes : first.nodes.Perm second.nodes)
    (ends : ∀ pair, pair ∈ first.edges.map (fun edge => (edge.source, edge.target)) ↔
      pair ∈ second.edges.map fun edge => (edge.source, edge.target)) : first.Matches second where
  node? id := by
    refine find?_eq_of_perm nodes fun a memA b memB idA idB => ?_
    exact List.inj_on_of_nodup_map second.ids_nodup memA memB
      ((eq_of_beq idA).trans (eq_of_beq idB).symm)
  hasEdge source target := by
    have pairs := ends (source, target)
    simpa [HasEdge, List.mem_map] using pairs

theorem Matches.contains_eq (same : first.Matches second) : first.contains = second.contains := by
  funext id
  rw [← node?_isSome, ← node?_isSome, same.node?]

theorem Matches.dependentIds_eq (same : first.Matches second) :
    first.dependentIds = second.dependentIds := by
  funext target
  refine Ascending.ofList_congr fun source => ?_
  have both := same.hasEdge source target
  rwa [← mem_dependentIds, ← mem_dependentIds, dependentIds, dependentIds, Ascending.mem_ofList,
    Ascending.mem_ofList] at both

theorem Matches.dependents_eq (same : first.Matches second) :
    first.dependents = second.dependents := by
  have node? : first.node? = second.node? := funext same.node?
  funext id
  rw [dependents, dependents, same.dependentIds_eq, node?]

theorem Matches.resolve?_eq (same : first.Matches second) (resolver : ImportResolver) :
    resolver.resolve? first = resolver.resolve? second := by
  funext specifier containing
  exact resolve?_congr (fun id => congrFun same.contains_eq id) specifier containing

end DependencyGraph

variable {first second : DependencyGraph}

theorem Rule.scan_eq_of_matches (same : first.Matches second) (rule : Rule) (dependent : CodeNode)
    (content : String) (resolver : ImportResolver) :
    rule.scan dependent content first resolver = rule.scan dependent content second resolver := by
  have targeting : ImportStatement.targeting first resolver =
      ImportStatement.targeting second resolver := by
    funext text containing target
    rw [ImportStatement.targeting, ImportStatement.targeting, same.resolve?_eq]
  cases rule with
  | delete target name exports => rw [scan, scan, marks, marks, targeting]
  | _ => rfl

namespace ImpactReport

/-- The further dependents are the same, and each is reached through the same node first. -/
theorem transitive_eq_of_matches (same : first.Matches second) (target : NodeId)
    (direct : List ImpactedNode) :
    transitive first target direct = transitive second target direct := by
  have node? : first.node? = second.node? := funext same.node?
  have firstVia? : firstVia? first direct = firstVia? second direct := by
    funext id
    rw [ImpactReport.firstVia?, ImpactReport.firstVia?, same.dependentIds_eq]
  rw [transitive, transitive, same.dependentIds_eq, node?, firstVia?]

open DependencyGraph (Call ofCalls)

variable {σ : Type} [SourceStore σ]

theorem scanDependent_eq_of_matches (same : first.Matches second) (store : σ)
    (resolver : ImportResolver) (rule : Rule) :
    scanDependent store first resolver rule = scanDependent store second resolver rule := by
  funext dependent
  unfold scanDependent
  cases SourceStore.read store dependent.path with
  | ok content =>
    exact congrArg (Scan.found dependent) (rule.scan_eq_of_matches same dependent content resolver)
  | error cause => rfl

theorem ofTarget_eq_of_matches (same : first.Matches second) (store : σ)
    (resolver : ImportResolver) (change : ChangeDescriptor) (target : CodeNode)
    (refusal? : Pattern → Option String) :
    ofTarget first store resolver change target refusal? =
      ofTarget second store resolver change target refusal? := by
  have scanDependent : scanDependent store first resolver = scanDependent store second resolver :=
    funext (scanDependent_eq_of_matches same store resolver)
  unfold ofTarget
  simp only [same.dependents_eq, scanDependent, transitive_eq_of_matches same]

/-- The report on a change, or the error, is the same for graphs that match, whatever the order in
which they were built. -/
theorem ofChange_eq_of_matches (same : first.Matches second) (store : σ)
    (resolver : ImportResolver) (change : ChangeDescriptor)
    (refusal? : Pattern → Option String) :
    ofChange first store resolver change refusal? =
      ofChange second store resolver change refusal? := by
  unfold ofChange
  rw [same.node?]
  cases second.node? change.nodeId with
  | none => rfl
  | some target =>
    exact congrArg Except.ok (ofTarget_eq_of_matches same store resolver change target refusal?)

/-- Two orders of building: a node is added twice, edges are there once or more and of other kinds,
and the node reached through two others comes by way of the same one. -/
theorem ofChange_eq_of_matches_two_orders :
    let node (path : String) : CodeNode := ⟨path, .file, path, path, 1, 1, [], [], .none⟩
    let edge (source target : NodeId) (kind : EdgeKind) (count : Nat) : Call :=
      .edge (.between source target kind (.ofNat count))
    let first := ofCalls [.node (node "t"), .node (node "a"), .node (node "b"), .node (node "c"),
      edge "a" "t" .imports 1, edge "b" "t" .imports 2, edge "c" "a" .imports 1,
      edge "c" "b" .usesType 1]
    let second := ofCalls [.node (node "c"), .node { node "b" with name := "old" },
      .node (node "a"), edge "a" "t" .calls 1, edge "c" "b" .renders 7, .node (node "b"),
      .node (node "t"), edge "b" "t" .imports 3, edge "c" "a" .imports 1, edge "a" "t" .imports 1,
      edge "b" "t" .usesType 1]
    let store : MemoryStore := { files := [("a", "t;"), ("b", "t;"), ("c", "")] }
    let resolver : ImportResolver := ⟨"@/", ""⟩
    let change : ChangeDescriptor := { nodeId := "t", changeType := .rename }
    first.Matches second ∧ first.edges ≠ second.edges ∧
      ofChange first store resolver change = ofChange second store resolver change ∧
      (ofChange second store resolver change).toOption.map (fun report =>
        (report.directImpact.map (·.nodeId),
          report.transitiveImpact.map fun entry => (entry.nodeId, entry.reason))) =
        some (["a", "b"], [("c", "Depends on a, which is directly impacted")]) := by
  intro node edge first second store resolver change
  have ends : first.edges.map (fun edge => (edge.source, edge.target)) ⊆
        second.edges.map (fun edge => (edge.source, edge.target)) ∧
      second.edges.map (fun edge => (edge.source, edge.target)) ⊆
        first.edges.map fun edge => (edge.source, edge.target) := by
    decide
  have same : first.Matches second :=
    .of_perm (by decide) fun pair => ⟨fun mem => ends.1 mem, fun mem => ends.2 mem⟩
  exact ⟨same, by decide, ofChange_eq_of_matches same store resolver change fun _ => none,
    by decide⟩

end ImpactReport

end ChangeImpact
