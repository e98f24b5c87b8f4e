import ChangeImpact.Coherence
import ChangeImpact.Graph.Build
import ChangeImpact.Graph.Group
import ChangeImpact.Project.Result
import ChangeImpact.Project.Scan
import ChangeImpact.Project.Workspace

/-!
# Analysing a project

The graph of the source files of a project, and what is found out about it.
-/

namespace ChangeImpact

inductive AnalysisError where
  | discovery (cause : DiscoveryError)
  | graph (cause : DanglingEdge)
  deriving DecidableEq, Repr

def AnalysisError.message : AnalysisError → String
  | discovery cause => cause.message
  | graph cause => cause.message

/-- What one analysis found; `skipped` are the paths of the files that were left out. -/
structure ProjectAnalysis where
  config : ProjectConfig
  projectName : String
  graph : DependencyGraph
  coherence : CoherenceReport
  totalFiles : Nat
  skipped : List String

namespace ProjectAnalysis

def toResult (analysis : ProjectAnalysis) : GraphAnalysisResult :=
  { nodes := analysis.graph.nodes
    edges := analysis.graph.edges
    groups := analysis.graph.groups
    metadata :=
      { projectName := analysis.projectName
        totalFiles := analysis.totalFiles
        totalNodes := analysis.graph.nodes.length
        totalEdges := analysis.graph.edges.length
        coherenceScore := analysis.coherence.score
        issues := analysis.coherence.issues } }

end ProjectAnalysis

def Project.analyze (project : Project) (config : ProjectConfig) :
    Except AnalysisError ProjectAnalysis := do
  let outcome ← (project.scan config).mapError .discovery
  let graph ← (DependencyGraph.build outcome.nodes config.resolver).mapError .graph
  return {
    config
    projectName := project.name
    graph
    coherence := CoherenceReport.ofGraph graph config.couplingThreshold
    totalFiles := outcome.filesSeen
    skipped := outcome.skipped.map (·.path) }

end ChangeImpact
