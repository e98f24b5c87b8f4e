import ChangeImpact.Graph.Basic

/-!
# Cycles of the dependency graph

A depth-first walk from every node not yet visited. An edge back to a node of the current path
closes a cycle: the path from that node on, and that node once more. Removing the last edge of every
cycle found leaves no cycle.
-/

namespace ChangeImpact

namespace DependencyGraph

/-- The ends of the edges that leave a node, the latest edge first. -/
def successors (graph : DependencyGraph) (id : NodeId) : List NodeId :=
  (graph.edgesFrom id).map (·.target)

/-- What a walk knows: the nodes visited and the cycles found, the latest of each first. -/
structure Walk where
  visited : List NodeId
  cycles : List (List NodeId)
  deriving DecidableEq, Repr

/-- The cycle closed by an edge from the head of `path`, which is in reverse, to `target` on it. -/
def closedCycle (path : List NodeId) (target : NodeId) : List NodeId :=
  target :: ((path.takeWhile (· != target)).reverse ++ [target])

/-- Follows the edges to `targets` from the head of `path`, which is in reverse. `fuel` bounds how
much longer the path may grow; the number of nodes not on the path is enough. -/
def explore (graph : DependencyGraph) : Nat → List NodeId → List NodeId → Walk → Walk
  | _, _, [], walk => walk
  | fuel, path, target :: rest, walk =>
    if path.contains target then
      explore graph fuel path rest { walk with cycles := closedCycle path target :: walk.cycles }
    else if walk.visited.contains target then explore graph fuel path rest walk
    else
      match fuel with
      | 0 => explore graph 0 path rest walk
      | fuel + 1 =>
        explore graph (fuel + 1) path rest
          (explore graph fuel (target :: path) (graph.successors target)
            { walk with visited := target :: walk.visited })
termination_by fuel _ targets => (fuel, targets.length)

def exploreFrom (graph : DependencyGraph) (walk : Walk) (id : NodeId) : Walk :=
  if walk.visited.contains id then walk
  else
    explore graph graph.nodes.length [id] (graph.successors id)
      { walk with visited := id :: walk.visited }

/-- The cycles found by walking from every node in order, in the order in which they are closed. -/
def cycles (graph : DependencyGraph) : List (List NodeId) :=
  (graph.ids.foldl (exploreFrom graph) ⟨[], []⟩).cycles.reverse

end DependencyGraph

end ChangeImpact
