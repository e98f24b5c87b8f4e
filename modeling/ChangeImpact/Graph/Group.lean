import ChangeImpact.Graph.Basic
import ChangeImpact.Path

/-!
# Directory groups

The nodes of a graph by the directories of their paths, for display.
-/

namespace ChangeImpact

structure NodeGroup where
  id : String
  label : String
  nodeIds : List NodeId
  deriving DecidableEq, Repr

namespace DependencyGraph

/-- The directory a node is shown under; `.` stands for the root. -/
def directoryOf (node : CodeNode) : String :=
  (Path.parent? node.path).getD "."

def groupOf (graph : DependencyGraph) (directory : String) : NodeGroup :=
  { id := "group:" ++ directory
    label := Path.fileName directory
    nodeIds := Ascending.sortStrings
      ((graph.nodes.filter fun node => directoryOf node == directory).map (·.id)) }

def groups (graph : DependencyGraph) : List NodeGroup :=
  (Ascending.ofList (graph.nodes.map directoryOf)).map graph.groupOf

end DependencyGraph

end ChangeImpact
