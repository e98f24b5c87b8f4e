import ChangeImpact.Change
import ChangeImpact.Patch.Basic

/-!
# Impact reports

What a change reaches: the files that it touches directly, the files that depend on these, the lines
that break, and patches that mend them.
-/

namespace ChangeImpact

/-- A file that a change reaches; only one that it reaches directly has lines. -/
structure ImpactedNode where
  nodeId : NodeId
  path : String
  name : String
  kind : NodeKind
  lines : List Nat
  breaking : Bool
  reason : String
  deriving DecidableEq, Repr

structure BreakingChange where
  nodeId : NodeId
  path : String
  line : Nat
  code : String
  reason : String
  deriving DecidableEq, Repr

structure ImpactReport where
  targetNode : NodeId
  change : ChangeDescriptor
  directImpact : List ImpactedNode
  transitiveImpact : List ImpactedNode
  breakingChanges : List BreakingChange
  suggestedFixes : List Patch
  riskLevel : RiskLevel
  warnings : List String
  deriving DecidableEq, Repr

namespace ImpactReport

/-- The fixes that need nobody's judgement. -/
def autoFixes (report : ImpactReport) : List Patch :=
  report.suggestedFixes.filter (·.autoFixable)

def requiresConfirmation (report : ImpactReport) : Bool :=
  report.riskLevel == .critical

end ImpactReport

def assessRisk (change : ChangeKind) (breaking direct : Nat) : RiskLevel :=
  if 5 < breaking || (change == .delete && 3 < direct) then .critical
  else if 2 < breaking || 5 < direct then .high
  else if 0 < breaking || 2 < direct then .medium
  else .low

end ChangeImpact
