import ChangeImpact.Graph.Cycle
import Mathlib.Data.List.Chain
import Mathlib.Data.List.Nodup
import Mathlib.Data.List.Perm.Basic

/-!
# Paths and circuits

A path goes along the edges of the graph and comes to no node twice. An edge from its end to a node
on it closes a circuit: the list of nodes that a walk reports there begins and ends with this node,
and each node of the list has an edge to the next.
-/

namespace ChangeImpact

namespace DependencyGraph

variable {graph : DependencyGraph} {source target : NodeId}

def HasEdge (graph : DependencyGraph) (source target : NodeId) : Prop :=
  ∃ edge ∈ graph.edges, edge.source = source ∧ edge.target = target

theorem mem_successors : target ∈ graph.successors source ↔ graph.HasEdge source target := by
  simp [successors, edgesFrom, HasEdge, and_assoc]

theorem HasEdge.source_mem (h : graph.HasEdge source target) : source ∈ graph.ids := by
  obtain ⟨edge, mem, rfl, -⟩ := h
  exact (graph.ends_mem edge mem).1

theorem HasEdge.target_mem (h : graph.HasEdge source target) : target ∈ graph.ids := by
  obtain ⟨edge, mem, -, rfl⟩ := h
  exact (graph.ends_mem edge mem).2

/-- No way along edges leads from a node back to it. -/
def IsAcyclic (graph : DependencyGraph) : Prop :=
  ∀ id, ¬ Relation.TransGen graph.HasEdge id id

/-- Nodes along edges, given from the last to the first, none of them twice. -/
structure IsPath (graph : DependencyGraph) (path : List NodeId) : Prop where
  nodup : path.Nodup
  ids : ∀ id ∈ path, id ∈ graph.ids
  edges : path.IsChain fun later earlier => graph.HasEdge earlier later

theorem IsPath.single {id : NodeId} (mem : id ∈ graph.ids) : graph.IsPath [id] where
  nodup := List.nodup_singleton id
  ids := by simpa using mem
  edges := List.isChain_singleton id

theorem IsPath.cons {tail : List NodeId} (isPath : graph.IsPath (source :: tail))
    (edge : graph.HasEdge source target) (fresh : target ∉ source :: tail) :
    graph.IsPath (target :: source :: tail) where
  nodup := List.nodup_cons.mpr ⟨fresh, isPath.nodup⟩
  ids := by
    intro id mem
    rcases List.mem_cons.mp mem with rfl | mem
    · exact edge.target_mem
    · exact isPath.ids id mem
  edges := List.isChain_cons_cons.mpr ⟨edge, isPath.edges⟩

theorem IsPath.length_le {path : List NodeId} (isPath : graph.IsPath path) :
    path.length ≤ graph.nodes.length := by
  have sub : path.Subperm graph.ids := List.subperm_of_subset isPath.nodup isPath.ids
  simpa [DependencyGraph.ids] using sub.length_le

/-- Nodes along edges that end where they begin, with no other node twice. -/
structure IsCircuit (graph : DependencyGraph) (cycle : List NodeId) : Prop where
  edges : cycle.IsChain graph.HasEdge
  closed : ∃ id inner, cycle = id :: (inner ++ [id])
  once : cycle.tail.Nodup

theorem IsCircuit.transGen {cycle : List NodeId} (circuit : graph.IsCircuit cycle) :
    ∃ id, Relation.TransGen graph.HasEdge id id := by
  obtain ⟨id, inner, rfl⟩ := circuit.closed
  cases inner with
  | nil =>
    have self : graph.HasEdge id id := (List.isChain_cons_cons.mp circuit.edges).1
    exact ⟨id, .single self⟩
  | cons next inner =>
    obtain ⟨first, chain⟩ := List.isChain_cons_cons.mp circuit.edges
    have back : Relation.ReflTransGen graph.HasEdge next id :=
      List.relationReflTransGen_of_exists_isChain_cons _ chain (by simp)
    exact ⟨id, .head' first back⟩

theorem IsCircuit.dropLast_nodup {cycle : List NodeId} (circuit : graph.IsCircuit cycle) :
    cycle.dropLast.Nodup := by
  obtain ⟨id, inner, rfl⟩ := circuit.closed
  have moved : (inner ++ [id]).Perm (id :: inner) := List.perm_append_comm
  have same : (id :: (inner ++ [id])).dropLast = id :: inner := by
    rw [← List.cons_append, List.dropLast_concat]
  rw [same]
  exact moved.nodup_iff.mp circuit.once

theorem IsCircuit.head?_eq_getLast? {cycle : List NodeId} (circuit : graph.IsCircuit cycle) :
    2 ≤ cycle.length ∧ cycle.head? = cycle.getLast? := by
  obtain ⟨id, inner, rfl⟩ := circuit.closed
  refine ⟨by simp, ?_⟩
  rw [← List.cons_append, List.getLast?_concat]
  rfl

/-- The list reported for an edge from the end of a path to a node on it ends with this edge. -/
theorem suffix_closedCycle {tail : List NodeId} (mem : target ∈ source :: tail) :
    [source, target] <:+ closedCycle (source :: tail) target := by
  by_cases same : source = target
  · subst same
    simp [closedCycle]
  · rw [closedCycle, List.takeWhile_cons_of_pos (by simpa using same), List.reverse_cons]
    exact ⟨target :: (tail.takeWhile (· != target)).reverse, by simp⟩

/-- A path is cut at a node on it: what was reached after it, the node, and what was reached
before. -/
theorem exists_takeWhile_append {path : List NodeId} (mem : target ∈ path) :
    ∃ earlier, path = path.takeWhile (· != target) ++ target :: earlier := by
  induction path with
  | nil => simp at mem
  | cons id rest ih =>
    by_cases same : id = target
    · exact ⟨rest, by simp [same]⟩
    · have inRest : target ∈ rest := (List.mem_cons.mp mem).resolve_left (Ne.symm same)
      obtain ⟨earlier, cut⟩ := ih inRest
      refine ⟨earlier, ?_⟩
      rw [List.takeWhile_cons_of_pos (by simpa using same), List.cons_append, ← cut]

theorem IsPath.isCircuit_closedCycle {tail : List NodeId}
    (isPath : graph.IsPath (source :: tail)) (mem : target ∈ source :: tail)
    (edge : graph.HasEdge source target) :
    graph.IsCircuit (closedCycle (source :: tail) target) := by
  obtain ⟨earlier, cut⟩ := exists_takeWhile_append mem
  generalize later_eq : (source :: tail).takeWhile (· != target) = later at cut
  have shape : closedCycle (source :: tail) target = (later ++ [target]).reverse ++ [target] := by
    simp [closedCycle, later_eq]
  have whole : source :: tail = (later ++ [target]) ++ earlier := by simp [cut]
  have chain : (later ++ [target]).IsChain fun later earlier => graph.HasEdge earlier later :=
    List.IsChain.left_of_append (whole ▸ isPath.edges)
  have last : (later ++ [target]).head? = some source := by
    have heads := congrArg List.head? whole
    rw [List.head?_append_of_ne_nil _ (by simp)] at heads
    exact heads.symm
  have nodup : (later ++ [target]).Nodup :=
    List.Nodup.of_append_left (whole ▸ isPath.nodup)
  constructor
  · rw [shape, List.isChain_append]
    refine ⟨List.isChain_reverse.mpr chain, List.isChain_singleton target, ?_⟩
    intro id idLast next nextFirst
    rw [List.getLast?_reverse, last] at idLast
    obtain rfl : source = id := by simpa using idLast
    obtain rfl : target = next := by simpa using nextFirst
    exact edge
  · exact ⟨target, later.reverse, by simp [shape]⟩
  · have reordered : (later.reverse ++ [target]).Perm (later ++ [target]) :=
      (List.reverse_perm later).append_right [target]
    rw [shape]
    simpa using reordered.nodup_iff.mpr nodup

end DependencyGraph

end ChangeImpact
