import ChangeImpact.Proofs.Ascending
import ChangeImpact.Proofs.Classes
import ChangeImpact.Proofs.Graph.Circuit

/-!
# Dependents

The dependents of a node are the nodes with an edge to it, each once, ascending by identifier.
-/

namespace ChangeImpact

namespace DependencyGraph

variable {graph : DependencyGraph} {source target : NodeId}

theorem mem_dependentIds : source ∈ graph.dependentIds target ↔ graph.HasEdge source target := by
  rw [dependentIds, Ascending.mem_ofList, edgesTo, List.mem_map]
  constructor
  · rintro ⟨edge, mem, rfl⟩
    obtain ⟨listed, target_eq⟩ := List.mem_filter.mp (List.mem_reverse.mp mem)
    exact ⟨edge, listed, rfl, by simpa using target_eq⟩
  · rintro ⟨edge, listed, rfl, rfl⟩
    exact ⟨edge, List.mem_reverse.mpr (List.mem_filter.mpr ⟨listed, by simp⟩), rfl⟩

theorem exists_node?_of_mem_ids {id : NodeId} (mem : id ∈ graph.ids) :
    ∃ node, graph.node? id = some node ∧ node.id = id := by
  obtain ⟨node, listed, rfl⟩ := List.mem_map.mp mem
  have found : (graph.nodes.find? (·.id == node.id)).isSome = true :=
    List.find?_isSome.mpr ⟨node, listed, by simp⟩
  obtain ⟨other, some⟩ := Option.isSome_iff_exists.mp found
  exact ⟨other, some, by simpa using List.find?_some some⟩

theorem map_id_dependents (graph : DependencyGraph) (id : NodeId) :
    (graph.dependents id).map (·.id) = graph.dependentIds id :=
  map_key_filterMap fun _ mem => exists_node?_of_mem_ids (mem_dependentIds.mp mem).source_mem

theorem hasEdge_of_mem_dependents (graph : DependencyGraph) {id : NodeId} {dependent : CodeNode}
    (mem : dependent ∈ graph.dependents id) : graph.HasEdge dependent.id id := by
  refine mem_dependentIds.mp ?_
  rw [← graph.map_id_dependents]
  exact List.mem_map.mpr ⟨dependent, mem, rfl⟩

theorem node?_of_mem_dependents {id : NodeId} {dependent : CodeNode}
    (mem : dependent ∈ graph.dependents id) : graph.node? dependent.id = some dependent := by
  obtain ⟨other, -, found⟩ := List.mem_filterMap.mp mem
  have same : dependent.id = other := by simpa using List.find?_some found
  rw [same, found]

theorem pairwise_dependentIds (graph : DependencyGraph) (id : NodeId) :
    (graph.dependentIds id).Pairwise (· < ·) :=
  Ascending.pairwise_ofList _

end DependencyGraph

end ChangeImpact
