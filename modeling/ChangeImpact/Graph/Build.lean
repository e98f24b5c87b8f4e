import ChangeImpact.Specifier

/-!
# The graph of a set of nodes

A graph has one edge for each node, each other node it imports from, and each of the two ways of
importing: for types only, or otherwise. The weight of an edge is the number of names it carries.
-/

namespace ChangeImpact

def ImportRef.edgeKind (ref : ImportRef) : EdgeKind :=
  if ref.kind == .typeOnly then .usesType else .imports

namespace DependencyGraph

/-- The graph of nodes without edges; of nodes with one identifier the last one counts. -/
def ofNodes (nodes : List CodeNode) : DependencyGraph :=
  nodes.foldl addNode empty

/-- The other nodes that a node's imports stand for, each with the kind of its import. -/
def importTargets (graph : DependencyGraph) (resolver : ImportResolver) (node : CodeNode) :
    List (NodeId × EdgeKind) :=
  node.imports.filterMap fun ref =>
    match resolver.resolve? graph ref.source node.path with
    | some target => if target == node.id then none else some (target, ref.edgeKind)
    | none => none

def importEdges (graph : DependencyGraph) (resolver : ImportResolver) (node : CodeNode) :
    List Edge :=
  let targets := importTargets graph resolver node
  (Ascending.ofList (targets.map (·.1))).flatMap fun target =>
    [EdgeKind.imports, EdgeKind.usesType].filterMap fun kind =>
      match targets.count (target, kind) with
      | 0 => none
      | count => some (Edge.between node.id target kind (Weight.ofNat count))

/-- Adds edges in order, up to the first one that cannot be added. -/
def addEdges (graph : DependencyGraph) (edges : List Edge) : Except DanglingEdge DependencyGraph :=
  edges.foldlM addEdge graph

def build (nodes : List CodeNode) (resolver : ImportResolver) :
    Except DanglingEdge DependencyGraph :=
  let graph := ofNodes nodes
  addEdges graph (graph.nodes.flatMap (importEdges graph resolver))

end DependencyGraph

end ChangeImpact
