import ChangeImpact.Node
import ChangeImpact.Weight

/-!
# Edges of the dependency graph
-/

namespace ChangeImpact

inductive EdgeKind where
  | imports | usesType | calls | renders | providesContext | consumesContext | hasField | references
  deriving DecidableEq, Repr

def EdgeKind.name : EdgeKind → String
  | imports => "imports"
  | usesType => "uses-type"
  | calls => "calls"
  | renders => "renders"
  | providesContext => "provides-context"
  | consumesContext => "consumes-context"
  | hasField => "has-field"
  | references => "references"

def EdgeKind.all : List EdgeKind :=
  [.imports, .usesType, .calls, .renders, .providesContext, .consumesContext, .hasField,
    .references]

abbrev EdgeId := String

/-- A directed edge. Its weight is for display: how many names travel along it. -/
structure Edge where
  id : EdgeId
  source : NodeId
  target : NodeId
  kind : EdgeKind
  weight : Weight
  deriving DecidableEq, Repr

/-- The edge whose identifier names its ends and its kind. -/
def Edge.between (source target : NodeId) (kind : EdgeKind) (weight : Weight) : Edge :=
  ⟨source ++ "->" ++ target ++ ":" ++ kind.name, source, target, kind, weight⟩

end ChangeImpact
