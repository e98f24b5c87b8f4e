import ChangeImpact.Source.Declaration

/-!
# The main construct of a source file

The kind of a file's main construct, decided by the first rule that holds, and its name.
-/

namespace ChangeImpact

def fileStem (fileName : String) : String :=
  String.ofList (fileName.toList.takeWhile (· != '.'))

/-- Whether a name is a hook's: `use` and an upper-case letter of ASCII. -/
def isHookName (name : String) : Bool :=
  match Text.dropWord? "use".toList name.toList with
  | some (c :: _) => Text.isAsciiUpper c
  | _ => false

namespace NodeKind

open Declaration

/-- The kind of the source file at a path; the first rule that holds decides. -/
def classify (path : String) (text : List Char) : NodeKind :=
  let directories := (Path.segments path).dropLast
  if directories.contains "api" then .api
  else if isHookName (fileStem (Path.fileName path)) then .hook
  else if createContext.occursIn text then .context
  else if renderReturn.occursIn text && markup.occursIn text then .component
  else if classDecl.occursIn text then .classDef
  else if enumDecl.occursIn text then .enum
  else if interfaceDecl.occursIn text then .interface
  else if typeDecl.occursIn text || directories.contains "types" then .typeAlias
  else if exportedFunction.occursIn text then .function
  else if exportedConst.occursIn text then .constant
  else .file

def isCapitalised (name : String) : Bool :=
  name.toList.head?.any Text.isAsciiUpper

def declaredName? (kind : NodeKind) (text : List Char) (exports : List ExportRef) : Option String :=
  match kind with
  | .classDef => (classDecl.firstMatch? text).map nameOf
  | .enum => (enumDecl.firstMatch? text).map nameOf
  | .interface => (interfaceDecl.firstMatch? text).map nameOf
  | .typeAlias => (typeDecl.firstMatch? text).map nameOf
  | .context => (contextBinding.firstMatch? text).map nameOf
  | .hook => (exports.find? fun ref => isHookName ref.name).map (·.name)
  | .component => (exports.find? fun ref => isCapitalised ref.name).map (·.name)
  | .file | .function | .constant | .api => none

/-- The name of a file's main construct: a named default export, else the construct of the file's
kind, else the first named export, else the stem of the file's name. -/
def primaryName (kind : NodeKind) (path : String) (text : List Char) (exports : List ExportRef) :
    String :=
  let default := exports.find? fun ref => ref.kind == .default && ref.name != "default"
  let named := exports.find? fun ref => ref.name != "default"
  (((default.map (·.name)).or (declaredName? kind text exports)).or (named.map (·.name))).getD
    (fileStem (Path.fileName path))

end NodeKind

end ChangeImpact
