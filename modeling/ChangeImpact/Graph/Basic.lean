import ChangeImpact.Ascending
import ChangeImpact.Edge

/-!
# The dependency graph

Nodes and edges in the order in which they were added. No two nodes share an identifier, and every
edge joins nodes of the graph. Adding a node under an identifier that is taken replaces the node and
keeps its place and its edges.
-/

namespace ChangeImpact

structure DependencyGraph where
  nodes : List CodeNode
  edges : List Edge
  ids_nodup : (nodes.map (·.id)).Nodup
  ends_mem : ∀ edge ∈ edges, edge.source ∈ nodes.map (·.id) ∧ edge.target ∈ nodes.map (·.id)

structure DanglingEdge where
  edge : EdgeId
  node : NodeId
  deriving DecidableEq, Repr

def DanglingEdge.message (error : DanglingEdge) : String :=
  "edge " ++ error.edge ++ " references unknown node " ++ error.node

namespace DependencyGraph

def empty : DependencyGraph :=
  ⟨[], [], by simp, by simp⟩

def ids (graph : DependencyGraph) : List NodeId :=
  graph.nodes.map (·.id)

def contains (graph : DependencyGraph) (id : NodeId) : Bool :=
  graph.ids.contains id

def node? (graph : DependencyGraph) (id : NodeId) : Option CodeNode :=
  graph.nodes.find? (·.id == id)

/-- Puts a node in the place of the one with its identifier. -/
def replaceNode (node : CodeNode) (nodes : List CodeNode) : List CodeNode :=
  nodes.map fun old => if old.id = node.id then node else old

theorem ids_replaceNode (node : CodeNode) (nodes : List CodeNode) :
    (replaceNode node nodes).map (·.id) = nodes.map (·.id) := by
  unfold replaceNode
  rw [List.map_map]
  apply List.map_congr_left
  intro old _
  by_cases same : old.id = node.id <;> simp [same]

/-- Adds a node at the end, or in the place of the node with its identifier. -/
def addNode (graph : DependencyGraph) (node : CodeNode) : DependencyGraph :=
  if taken : node.id ∈ graph.nodes.map (·.id) then
    { nodes := replaceNode node graph.nodes
      edges := graph.edges
      ids_nodup := by rw [ids_replaceNode]; exact graph.ids_nodup
      ends_mem := by rw [ids_replaceNode]; exact graph.ends_mem }
  else
    { nodes := graph.nodes ++ [node]
      edges := graph.edges
      ids_nodup := by
        rw [List.map_append, List.nodup_append]
        refine ⟨graph.ids_nodup, by simp, ?_⟩
        intro a ha b hb same
        simp only [List.map_cons, List.map_nil, List.mem_singleton] at hb
        exact taken (hb ▸ same ▸ ha)
      ends_mem := by
        intro edge member
        have ends := graph.ends_mem edge member
        rw [List.map_append]
        exact ⟨List.mem_append_left _ ends.1, List.mem_append_left _ ends.2⟩ }

/-- Adds an edge, unless one of its ends is not in the graph; the source is looked at first. -/
def addEdge (graph : DependencyGraph) (edge : Edge) : Except DanglingEdge DependencyGraph :=
  if source : edge.source ∈ graph.nodes.map (·.id) then
    if target : edge.target ∈ graph.nodes.map (·.id) then
      .ok
        { nodes := graph.nodes
          edges := graph.edges ++ [edge]
          ids_nodup := graph.ids_nodup
          ends_mem := by
            intro other member
            rcases List.mem_append.1 member with member | member
            · exact graph.ends_mem other member
            · rw [List.mem_singleton.1 member]; exact ⟨source, target⟩ }
    else .error ⟨edge.id, edge.target⟩
  else .error ⟨edge.id, edge.source⟩

/-- The edges that leave a node, the latest first. -/
def edgesFrom (graph : DependencyGraph) (id : NodeId) : List Edge :=
  (graph.edges.filter (·.source == id)).reverse

def edgesTo (graph : DependencyGraph) (id : NodeId) : List Edge :=
  (graph.edges.filter (·.target == id)).reverse

/-- The identifiers of the nodes with an edge to `id`, ascending. -/
def dependentIds (graph : DependencyGraph) (id : NodeId) : List NodeId :=
  Ascending.ofList ((graph.edgesTo id).map (·.source))

def dependencyIds (graph : DependencyGraph) (id : NodeId) : List NodeId :=
  Ascending.ofList ((graph.edgesFrom id).map (·.target))

def dependents (graph : DependencyGraph) (id : NodeId) : List CodeNode :=
  (graph.dependentIds id).filterMap graph.node?

def dependencies (graph : DependencyGraph) (id : NodeId) : List CodeNode :=
  (graph.dependencyIds id).filterMap graph.node?

/-- The number of edges at a node; an edge from the node to itself counts twice. -/
def degree (graph : DependencyGraph) (id : NodeId) : Nat :=
  (graph.edgesTo id).length + (graph.edgesFrom id).length

def hasEdgeBetween (graph : DependencyGraph) (source target : NodeId) (kind : EdgeKind) : Bool :=
  (graph.edgesFrom source).any fun edge => edge.target == target && edge.kind == kind

def nodeNamed? (graph : DependencyGraph) (name : String) : Option CodeNode :=
  graph.nodes.find? (·.name == name)

end DependencyGraph

end ChangeImpact
