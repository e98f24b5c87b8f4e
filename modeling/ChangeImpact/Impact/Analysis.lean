import ChangeImpact.Impact.Rule
import ChangeImpact.Store

/-!
# Impact of a change

The rule of a change is run on every file that depends on its target. The files in which it finds
something are impacted directly; their other dependents are impacted through them. A file that
cannot be read is reported and left out.
-/

namespace ChangeImpact

structure NodeNotFound where
  id : NodeId
  deriving DecidableEq, Repr

def NodeNotFound.message (error : NodeNotFound) : String :=
  "node " ++ error.id ++ " is not in the graph"

namespace ImpactReport

/-- What was found in one dependent, or why it could not be read. -/
inductive Scan where
  | found (dependent : CodeNode) (findings : Findings)
  | unreadable (dependent : CodeNode) (cause : IoError)
  deriving DecidableEq, Repr

def impacted (node : CodeNode) (lines : List Nat) (breaking : Bool) (reason : String) :
    ImpactedNode :=
  ⟨node.id, node.path, node.name, node.kind, lines, breaking, reason⟩

def scanDependent [SourceStore σ] (store : σ) (graph : DependencyGraph) (resolver : ImportResolver)
    (rule : Rule) (dependent : CodeNode) : Scan :=
  match SourceStore.read store dependent.path with
  | .ok content => .found dependent (rule.scan dependent content graph resolver)
  | .error cause => .unreadable dependent cause

namespace Scan

def hit? : Scan → Option (CodeNode × Findings)
  | found dependent findings => if findings.isEmpty then none else some (dependent, findings)
  | unreadable _ _ => none

def warning? : Scan → Option String
  | found _ _ => none
  | unreadable dependent cause =>
    some ("could not read " ++ dependent.path ++ ": " ++ cause.message)

end Scan

/-- The first directly impacted node that a node depends on. -/
def firstVia? (graph : DependencyGraph) (direct : List ImpactedNode) (id : NodeId) :
    Option ImpactedNode :=
  direct.find? fun via => (graph.dependentIds via.nodeId).contains id

/-- The dependents of the directly impacted nodes, the target and these nodes left out. -/
def transitive (graph : DependencyGraph) (target : NodeId) (direct : List ImpactedNode) :
    List ImpactedNode :=
  let reached := (direct.flatMap fun via => graph.dependentIds via.nodeId).filter fun id =>
    id != target && !direct.any (·.nodeId == id)
  (Ascending.ofList reached).filterMap fun id => do
    let node ← graph.node? id
    let via ← firstVia? graph direct id
    return impacted node [] false ("Depends on " ++ via.name ++ ", which is directly impacted")

def ofTarget [SourceStore σ] (graph : DependencyGraph) (store : σ) (resolver : ImportResolver)
    (change : ChangeDescriptor) (target : CodeNode)
    (refusal? : Pattern → Option String := fun _ => none) : ImpactReport :=
  let (rule, warnings) := Rule.ofChange change target refusal?
  let scans := rule.toList.flatMap fun rule =>
    (graph.dependents target.id).map (scanDependent store graph resolver rule)
  let hits := scans.filterMap Scan.hit?
  let reason := (rule.map Rule.reason).getD ""
  let direct := hits.map fun (dependent, findings) =>
    impacted dependent findings.lines (!findings.breaking.isEmpty) reason
  let breaking := hits.flatMap fun (_, findings) => findings.breaking
  { targetNode := target.id
    change
    directImpact := direct
    transitiveImpact := transitive graph target.id direct
    breakingChanges := breaking
    suggestedFixes := hits.flatMap fun (_, findings) => findings.fixes
    riskLevel := assessRisk change.changeType breaking.length direct.length
    warnings := warnings.map RuleWarning.message ++ scans.filterMap Scan.warning? }

def ofChange [SourceStore σ] (graph : DependencyGraph) (store : σ) (resolver : ImportResolver)
    (change : ChangeDescriptor) (refusal? : Pattern → Option String := fun _ => none) :
    Except NodeNotFound ImpactReport :=
  match graph.node? change.nodeId with
  | some target => .ok (ofTarget graph store resolver change target refusal?)
  | none => .error ⟨change.nodeId⟩

end ImpactReport

end ChangeImpact
