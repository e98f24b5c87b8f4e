import ChangeImpact.Coherence
import ChangeImpact.Graph.Group

/-!
# The result of an analysis, for display
-/

namespace ChangeImpact

structure AnalysisMetadata where
  projectName : String
  totalFiles : Nat
  totalNodes : Nat
  totalEdges : Nat
  coherenceScore : Nat
  issues : List CoherenceIssue
  deriving DecidableEq, Repr

structure GraphAnalysisResult where
  nodes : List CodeNode
  edges : List Edge
  groups : List NodeGroup
  metadata : AnalysisMetadata
  deriving DecidableEq, Repr

end ChangeImpact
