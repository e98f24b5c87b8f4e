import ChangeImpact.Source.Kind

/-!
# What a source text declares

Everything that is recorded about one source file: its kind and name, its size, its imports and
exports, and the facts of its kind.
-/

namespace ChangeImpact

namespace NodeFacts

open Declaration

def extract (kind : NodeKind) (name : String) (text : List Char) : NodeFacts :=
  match kind with
  | .component => .component (componentProps name text)
  | .interface | .typeAlias => .shape (shapeFields name text)
  | .api =>
    .api ((apiHandler.allMatches text).filterMap fun found => HttpMethod.ofName? (nameOf found))
  | .classDef =>
    let found := classMembers name text
    .classBody (found.filterMap ClassMember.method?) (found.filterMap ClassMember.field?)
  | .enum => .enum (enumMembers name text)
  | .hook => .hook (calledHooks name text)
  | .context => .context ((contextBinding.allMatches text).map nameOf)
  | .file | .function | .constant => .none

end NodeFacts

/-- One more than the number of places where control may branch. -/
def complexity (text : List Char) : Nat :=
  1 + (Declaration.branch.allMatches text).length

structure Extraction where
  kind : NodeKind
  name : String
  lineCount : Nat
  complexity : Nat
  imports : List ImportRef
  exports : List ExportRef
  facts : NodeFacts
  deriving DecidableEq, Repr

namespace Extraction

def extensions : List String :=
  ["ts", "tsx", "js", "jsx", "mts", "cts", "mjs", "cjs"]

/-- The extension of a path: what follows the last dot of its last name, unless the name has no
other character before that dot. A path that ends in `..` has none. -/
def extension? (path : String) : Option String :=
  match (Path.components path).getLast? with
  | none => none
  | some name =>
    if !Path.isName name || name == "/" then none
    else
      match Text.cutAtLast? '.' name.toList with
      | some (front, rest) => if front.isEmpty then none else some (String.ofList rest)
      | none => none

def handles (path : String) : Bool :=
  (extension? path).any extensions.contains

def ofText (path content : String) : Extraction :=
  let text := content.toList
  let exports := ExportRef.parseAll text
  let kind := NodeKind.classify path text
  let name := NodeKind.primaryName kind path text exports
  { kind, name, exports
    lineCount := (Text.linesChars text).length
    complexity := ChangeImpact.complexity text
    imports := ImportStatement.allRefs text
    facts := NodeFacts.extract kind name text }

def toNode (path : String) (extraction : Extraction) : CodeNode :=
  { id := path, kind := extraction.kind, name := extraction.name, path
    lineCount := extraction.lineCount, complexity := extraction.complexity
    imports := extraction.imports, exports := extraction.exports, facts := extraction.facts }

end Extraction

end ChangeImpact
