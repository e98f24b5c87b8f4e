import ChangeImpact.Project.Result
import ChangeImpact.Wire.Graph

/-!
# Results of an analysis as JSON
-/

namespace ChangeImpact

open Json (required record? str? nat32? nat64? list?)

def AnalysisMetadata.toJson (metadata : AnalysisMetadata) : Json :=
  .obj [("projectName", .str metadata.projectName), ("totalFiles", .nat metadata.totalFiles),
    ("totalNodes", .nat metadata.totalNodes), ("totalEdges", .nat metadata.totalEdges),
    ("coherenceScore", .nat metadata.coherenceScore),
    ("issues", .list CoherenceIssue.toJson metadata.issues)]

def AnalysisMetadata.fieldNames : List String :=
  ["projectName", "totalFiles", "totalNodes", "totalEdges", "coherenceScore", "issues"]

def AnalysisMetadata.ofJson? (json : Json) : Option AnalysisMetadata := do
  let members ← record? AnalysisMetadata.fieldNames json
  return {
    projectName := ← required str? "projectName" members
    totalFiles := ← required nat64? "totalFiles" members
    totalNodes := ← required nat64? "totalNodes" members
    totalEdges := ← required nat64? "totalEdges" members
    coherenceScore := ← required nat32? "coherenceScore" members
    issues := ← required (list? CoherenceIssue.ofJson?) "issues" members }

def GraphAnalysisResult.toJson (result : GraphAnalysisResult) : Json :=
  .obj [("nodes", .list CodeNode.toJson result.nodes), ("edges", .list Edge.toJson result.edges),
    ("groups", .list NodeGroup.toJson result.groups), ("metadata", result.metadata.toJson)]

def GraphAnalysisResult.ofJson? (json : Json) : Option GraphAnalysisResult := do
  let members ← record? ["nodes", "edges", "groups", "metadata"] json
  return {
    nodes := ← required (list? CodeNode.ofJson?) "nodes" members
    edges := ← required (list? Edge.ofJson?) "edges" members
    groups := ← required (list? NodeGroup.ofJson?) "groups" members
    metadata := ← required AnalysisMetadata.ofJson? "metadata" members }

end ChangeImpact
