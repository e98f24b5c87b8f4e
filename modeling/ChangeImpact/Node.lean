/-!
# Nodes of the dependency graph

A node stands for a source file. It is identified by the file's path and records what the file
declares: its imports, its exports, and facts that depend on the kind of its main construct.
-/

namespace ChangeImpact

/-- The project-relative path of a file, with `/` between its parts. -/
abbrev NodeId := String

inductive NodeKind where
  | file | component | function | typeAlias | interface | api | hook | context | classDef | enum
  | constant
  deriving DecidableEq, Repr

def NodeKind.name : NodeKind → String
  | file => "file"
  | component => "component"
  | function => "function"
  | typeAlias => "type"
  | interface => "interface"
  | api => "api"
  | hook => "hook"
  | context => "context"
  | classDef => "class"
  | enum => "enum"
  | constant => "constant"

def NodeKind.all : List NodeKind :=
  [.file, .component, .function, .typeAlias, .interface, .api, .hook, .context, .classDef, .enum,
    .constant]

/-- How a name is brought into a file. A side-effect import brings in the empty name. -/
inductive ImportKind where
  | default | named | wholeModule | typeOnly | sideEffect
  deriving DecidableEq, Repr

def ImportKind.name : ImportKind → String
  | default => "default"
  | named => "named"
  | wholeModule => "namespace"
  | typeOnly => "type-only"
  | sideEffect => "side-effect"

def ImportKind.all : List ImportKind :=
  [.default, .named, .wholeModule, .typeOnly, .sideEffect]

/-- One imported name: as its module exports it, the specifier as written, and the line. -/
structure ImportRef where
  name : String
  source : String
  kind : ImportKind
  line : Nat
  deriving DecidableEq, Repr

inductive ExportKind where
  | default | named | interface | typeAlias
  deriving DecidableEq, Repr

def ExportKind.name : ExportKind → String
  | default => "default"
  | named => "named"
  | interface => "interface"
  | typeAlias => "type"

def ExportKind.all : List ExportKind :=
  [.default, .named, .interface, .typeAlias]

structure ExportRef where
  name : String
  kind : ExportKind
  line : Nat
  deriving DecidableEq, Repr

/-- A declared field of a type, an interface, a component's properties or a class. -/
structure FieldDef where
  name : String
  typeName : String
  optional : Bool
  deriving DecidableEq, Repr

inductive HttpMethod where
  | get | post | put | patch | delete | head | options
  deriving DecidableEq, Repr

def HttpMethod.name : HttpMethod → String
  | get => "GET"
  | post => "POST"
  | put => "PUT"
  | patch => "PATCH"
  | delete => "DELETE"
  | head => "HEAD"
  | options => "OPTIONS"

def HttpMethod.all : List HttpMethod :=
  [.get, .post, .put, .patch, .delete, .head, .options]

def HttpMethod.ofName? (name : String) : Option HttpMethod :=
  HttpMethod.all.find? (·.name == name)

inductive NodeFacts where
  | none
  | component (props : List FieldDef)
  | shape (fields : List FieldDef)
  | api (handlers : List HttpMethod)
  | classBody (methods : List String) (fields : List FieldDef)
  | enum (members : List String)
  | hook (hooks : List String)
  | context (contexts : List String)
  deriving DecidableEq, Repr

def NodeFacts.fields : NodeFacts → List FieldDef
  | component props => props
  | shape fields => fields
  | classBody _ fields => fields
  | _ => []

/-- A vertex of the graph: one source file and its main construct. -/
structure CodeNode where
  id : NodeId
  kind : NodeKind
  name : String
  path : String
  lineCount : Nat
  complexity : Nat
  imports : List ImportRef
  exports : List ExportRef
  facts : NodeFacts
  deriving DecidableEq, Repr

structure SourceLocation where
  path : String
  line : Nat
  deriving DecidableEq, Repr

/-- Where the main construct is exported, or the first line if it is not. -/
def CodeNode.location (node : CodeNode) : SourceLocation :=
  ⟨node.path, ((node.exports.find? (·.name == node.name)).map (·.line)).getD 1⟩

end ChangeImpact
