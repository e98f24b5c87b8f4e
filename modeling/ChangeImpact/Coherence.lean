import ChangeImpact.Graph.Cycle
import ChangeImpact.Text.Cut

/-!
# Coherence of a dependency graph

Four checks: cycles, exports that nothing imports, files without any edge, and nodes with too many
edges. Each finding takes a fixed amount off a score of 100, which does not fall below zero and does
not depend on the size of the graph.
-/

namespace ChangeImpact

inductive IssueKind where
  | circularDependency | unusedExport | orphanedFile | godObject
  deriving DecidableEq, Repr

def IssueKind.name : IssueKind → String
  | circularDependency => "circular-dependency"
  | unusedExport => "unused-export"
  | orphanedFile => "orphaned-file"
  | godObject => "god-object"

def IssueKind.all : List IssueKind :=
  [.circularDependency, .unusedExport, .orphanedFile, .godObject]

/-- What the identifiers of issues of a kind begin with. -/
def IssueKind.label : IssueKind → String
  | circularDependency => "cycle"
  | unusedExport => "unused-export"
  | orphanedFile => "orphan"
  | godObject => "god-object"

inductive Severity where
  | critical | high | medium | low | info
  deriving DecidableEq, Repr

def Severity.name : Severity → String
  | critical => "critical"
  | high => "high"
  | medium => "medium"
  | low => "low"
  | info => "info"

def Severity.all : List Severity :=
  [.critical, .high, .medium, .low, .info]

def Severity.penalty : Severity → Nat
  | critical => 15
  | high => 10
  | medium => 5
  | low => 2
  | info => 1

structure CoherenceIssue where
  id : String
  kind : IssueKind
  severity : Severity
  nodeIds : List NodeId
  message : String
  suggestion : Option String
  deriving DecidableEq, Repr

structure CoherenceReport where
  score : Nat
  issues : List CoherenceIssue
  deriving DecidableEq, Repr

inductive Finding where
  | cycle (path : List NodeId)
  | unusedExport (node : NodeId) (path name : String)
  | orphan (node : NodeId) (path : String)
  | godObject (node : NodeId) (path : String) (degree threshold : Nat)
  deriving DecidableEq, Repr

namespace Finding

def kind : Finding → IssueKind
  | cycle _ => .circularDependency
  | unusedExport .. => .unusedExport
  | orphan .. => .orphanedFile
  | godObject .. => .godObject

def severity : Finding → Severity
  | cycle _ => .high
  | unusedExport .. => .low
  | orphan .. => .medium
  | godObject .. => .medium

def nodeIds : Finding → List NodeId
  | cycle path => path
  | unusedExport node _ _ => [node]
  | orphan node _ => [node]
  | godObject node _ _ _ => [node]

def message : Finding → String
  | cycle path => "Circular dependency: " ++ Text.joinWith " -> " path
  | unusedExport _ path name => "'" ++ name ++ "' is exported by " ++ path ++ " but never imported"
  | orphan _ path => path ++ " neither imports nor is imported by any project file"
  | godObject _ path degree threshold =>
    path ++ " has " ++ toString degree ++ " connections (threshold " ++ toString threshold ++ ")"

def suggestion : Finding → String
  | cycle _ => "Extract the shared code into a module both sides can import"
  | unusedExport _ _ name => "Remove the export of '" ++ name ++ "' or make it private"
  | orphan .. => "Delete the file if it is dead code"
  | godObject .. => "Split the module along its responsibilities"

def toIssue (number : Nat) (finding : Finding) : CoherenceIssue :=
  { id := finding.kind.label ++ "-" ++ toString number
    kind := finding.kind
    severity := finding.severity
    nodeIds := finding.nodeIds
    message := finding.message
    suggestion := some finding.suggestion }

/-- Findings as issues, those of each kind numbered from one. -/
def toIssues (findings : List Finding) : List CoherenceIssue :=
  findings.zipIdx.map fun (finding, index) =>
    finding.toIssue ((findings.take index).countP (·.kind == finding.kind) + 1)

end Finding

namespace CoherenceReport

/-- 100 less the penalties of the issues, and not below zero. -/
def scoreOf (severities : List Severity) : Nat :=
  100 - (severities.map Severity.penalty).foldr (· + ·) 0

def isImported (graph : DependencyGraph) (name : String) : Bool :=
  graph.nodes.any fun node => node.imports.any (·.name == name)

def unusedExports (graph : DependencyGraph) (node : CodeNode) : List Finding :=
  (node.exports.filter fun ref => ref.kind != .default && !isImported graph ref.name).map
    fun ref => .unusedExport node.id node.path ref.name

def orphans (graph : DependencyGraph) : List Finding :=
  (graph.nodes.filter fun node => node.kind != .api && graph.degree node.id == 0).map
    fun node => .orphan node.id node.path

def godObjects (graph : DependencyGraph) (threshold : Nat) : List Finding :=
  (graph.nodes.filter fun node => threshold < graph.degree node.id).map
    fun node => .godObject node.id node.path (graph.degree node.id) threshold

/-- All findings: cycles, then unused exports, orphans and god objects, each in the order of the
nodes. -/
def findings (graph : DependencyGraph) (threshold : Nat) : List Finding :=
  graph.cycles.map .cycle ++ graph.nodes.flatMap (unusedExports graph) ++ orphans graph ++
    godObjects graph threshold

/-- The report on a graph in which a node may have up to `threshold` edges. -/
def ofGraph (graph : DependencyGraph) (threshold : Nat) : CoherenceReport :=
  let issues := Finding.toIssues (findings graph threshold)
  ⟨scoreOf (issues.map (·.severity)), issues⟩

end CoherenceReport

end ChangeImpact
