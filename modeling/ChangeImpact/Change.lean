import ChangeImpact.Node

/-!
# Proposed changes

A change to one node, and what its name or type was before and is to be after it.
-/

namespace ChangeImpact

inductive ChangeKind where
  | rename | addField | removeField | changeType | delete
  deriving DecidableEq, Repr

def ChangeKind.name : ChangeKind → String
  | rename => "rename"
  | addField => "add-field"
  | removeField => "remove-field"
  | changeType => "change-type"
  | delete => "delete"

def ChangeKind.all : List ChangeKind :=
  [.rename, .addField, .removeField, .changeType, .delete]

structure UnknownChange where
  text : String
  deriving DecidableEq, Repr

def UnknownChange.message (error : UnknownChange) : String :=
  "unknown change type '" ++ error.text ++ "'"

def ChangeKind.parse (text : String) : Except UnknownChange ChangeKind :=
  match ChangeKind.all.find? (·.name == text) with
  | some kind => .ok kind
  | none => .error ⟨text⟩

/-- One side of a change: a name, a type, both or neither. -/
structure ValueDescriptor where
  name : Option String := none
  typeName : Option String := none
  deriving DecidableEq, Repr

structure ChangeDescriptor where
  nodeId : NodeId
  changeType : ChangeKind
  before : Option ValueDescriptor := none
  after : Option ValueDescriptor := none
  deriving DecidableEq, Repr

namespace ChangeDescriptor

def beforeName (change : ChangeDescriptor) : Option String := change.before.bind (·.name)

def beforeType (change : ChangeDescriptor) : Option String := change.before.bind (·.typeName)

def afterName (change : ChangeDescriptor) : Option String := change.after.bind (·.name)

def afterType (change : ChangeDescriptor) : Option String := change.after.bind (·.typeName)

end ChangeDescriptor

inductive RiskLevel where
  | low | medium | high | critical
  deriving DecidableEq, Repr

def RiskLevel.name : RiskLevel → String
  | low => "low"
  | medium => "medium"
  | high => "high"
  | critical => "critical"

def RiskLevel.all : List RiskLevel :=
  [.low, .medium, .high, .critical]

end ChangeImpact
