import ChangeImpact.Impact.FieldAccess
import ChangeImpact.Impact.Occurrence
import ChangeImpact.Impact.Report
import ChangeImpact.Impact.TypeConflict
import ChangeImpact.Source.Import

/-!
# What a change looks for in a dependent file

A change request and its target make a rule. The rule goes through the source of a file that depends
on the target and marks lines: those that break, and those that a patch mends.
-/

namespace ChangeImpact

/-- What a change request leaves open, or why its rule cannot look for anything. -/
inductive RuleWarning where
  | renameWithoutName (old : String)
  | addFieldWithoutName
  | removeFieldWithoutName
  | changeTypeWithoutName
  | changeTypeWithoutTypes (field : String)
  | patternRefused (cause : String)
  deriving DecidableEq, Repr

def RuleWarning.message : RuleWarning → String
  | renameWithoutName old => "rename of `" ++ old ++ "` has no new name; no fixes generated"
  | addFieldWithoutName => "add-field needs the new field's name"
  | removeFieldWithoutName => "remove-field needs the removed field's name"
  | changeTypeWithoutName => "change-type needs the field's name"
  | changeTypeWithoutTypes field =>
    "change-type of `" ++ field ++ "` is missing a before or after type; " ++
      "accesses are listed without a conflict check"
  | patternRefused cause => "could not build a matcher: " ++ cause

inductive Rule where
  | rename (old : String) (new : Option String)
  | addField (typeName field : String) (fieldType : Option String)
  | removeField (field : String)
  | changeType (field : String) (before after : Option String)
  | delete (target : NodeId) (name : String) (exports : List String)
  deriving DecidableEq, Repr

/-- A line that a rule marks: it breaks, or a patch is proposed for it. -/
inductive LineMark where
  | breaking (change : BreakingChange)
  | fix (patch : Patch)
  deriving DecidableEq, Repr

namespace LineMark

def line : LineMark → Nat
  | breaking change => change.line
  | fix patch => patch.line

def breaking? : LineMark → Option BreakingChange
  | breaking change => some change
  | fix _ => none

def fix? : LineMark → Option Patch
  | breaking _ => none
  | fix patch => some patch

end LineMark

/-- What a rule finds in a file: the marked lines, ascending, and the marks by what they are. -/
structure Findings where
  lines : List Nat
  breaking : List BreakingChange
  fixes : List Patch
  deriving DecidableEq, Repr

namespace Findings

def ofMarks (marks : List LineMark) : Findings :=
  ⟨Ascending.ofList (marks.map (·.line)), marks.filterMap (·.breaking?), marks.filterMap (·.fix?)⟩

def isEmpty (findings : Findings) : Bool :=
  findings.lines.isEmpty

end Findings

namespace Rule

/-- The rule that a change to a target asks for, if the request says enough, and what it leaves
open. -/
def requested (change : ChangeDescriptor) (target : CodeNode) : Option Rule × List RuleWarning :=
  match change.changeType with
  | .rename =>
    let old := change.beforeName.getD target.name
    (some (.rename old change.afterName),
      if change.afterName.isNone then [.renameWithoutName old] else [])
  | .addField =>
    match change.afterName with
    | some field => (some (.addField target.name field change.afterType), [])
    | none => (none, [.addFieldWithoutName])
  | .removeField =>
    match change.beforeName with
    | some field => (some (.removeField field), [])
    | none => (none, [.removeFieldWithoutName])
  | .changeType =>
    match change.beforeName.or change.afterName with
    | some field =>
      (some (.changeType field change.beforeType change.afterType),
        if change.beforeType.isNone || change.afterType.isNone then [.changeTypeWithoutTypes field]
        else [])
    | none => (none, [.changeTypeWithoutName])
  | .delete => (some (.delete target.id target.name (target.exports.map (·.name))), [])

def reason : Rule → String
  | rename old _ => "References `" ++ old ++ "`"
  | addField typeName field _ =>
    "Builds `" ++ typeName ++ "` values that may need `" ++ field ++ "`"
  | removeField field => "Uses field `" ++ field ++ "`"
  | changeType field _ _ => "Uses field `" ++ field ++ "`, whose type changes"
  | delete _ name _ => "Imports from `" ++ name ++ "`"

structure Line where
  number : Nat
  text : List Char
  deriving DecidableEq, Repr

def linesOf (text : List Char) : List Line :=
  (Text.linesChars text).zipIdx.map fun (line, index) => ⟨index + 1, line⟩

/-- The line with a number, empty if the text has none. -/
def lineAt (text : List Char) (number : Nat) : Line :=
  ⟨number, ((Text.linesChars text)[number - 1]?).getD []⟩

def broken (dependent : CodeNode) (line : Line) (reason : String) : LineMark :=
  .breaking
    ⟨dependent.id, dependent.path, line.number, String.ofList (Text.trimChars line.text), reason⟩

/-- A patch that leaves the line as it is, for someone to finish. -/
def suggestion (dependent : CodeNode) (line : Line) (description : String) : LineMark :=
  let code := String.ofList line.text
  .fix (Patch.create dependent.path line.number code code description false)

def automatic (dependent : CodeNode) (line : Line) (newCode : List Char) (description : String) :
    LineMark :=
  .fix (Patch.create dependent.path line.number (String.ofList line.text) (String.ofList newCode)
    description true)

/-- A value of a type that is written out: after an annotation, or before `satisfies`. -/
def valueOf (typeName : String) : Pattern :=
  .any [
    .all [.char ':', .blanks, .lit typeName, .blanks, .char '=', .blanks, .char '{'],
    .all [.char ':', .blanks, .lit typeName, .lit "[]", .blanks, .char '=', .blanks, .char '['],
    .all [.wordBoundary, .lit "satisfies", .blanks1, .lit typeName, .wordBoundary]]

/-- The patterns for which a rule has matchers, in the order in which these are built. -/
def patterns : Rule → List Pattern
  | rename old _ => [Occurrence.pattern old]
  | addField typeName _ _ => [valueOf typeName]
  | removeField field => [FieldAccess.pattern field, FieldAccess.destructuring field]
  | changeType field _ _ => [FieldAccess.pattern field]
  | delete _ _ _ => []

/-- The rule of a change to a target, and the warnings about it. What builds the matchers may refuse
a pattern, one of a very long name for its size, and then there is no rule; `refusal?` is the cause
that it gives. -/
def ofChange (change : ChangeDescriptor) (target : CodeNode)
    (refusal? : Pattern → Option String := fun _ => none) : Option Rule × List RuleWarning :=
  let (rule, gaps) := requested change target
  match (rule.toList.flatMap patterns).findSome? refusal? with
  | some cause => (none, gaps ++ [.patternRefused cause])
  | none => (rule, gaps)

def renameMarks (dependent : CodeNode) (old : String) (new : Option String) (line : Line) :
    List LineMark :=
  if Occurrence.occurs old line.text then
    broken dependent line ("`" ++ old ++ "` no longer exists") ::
      new.toList.map fun new =>
        automatic dependent line (Occurrence.replace old new line.text)
          ("Rename `" ++ old ++ "` to `" ++ new ++ "`")
  else []

def addFieldMarks (dependent : CodeNode) (typeName declared : String) (line : Line) :
    List LineMark :=
  if (valueOf typeName).occursIn line.text then
    [suggestion dependent line ("Add `" ++ declared ++ "` to this `" ++ typeName ++ "` value")]
  else []

def removeFieldMarks (dependent : CodeNode) (field : String) (line : Line) : List LineMark :=
  if (FieldAccess.destructuring field).occursIn line.text then
    [broken dependent line ("Destructures removed field `" ++ field ++ "`"),
      suggestion dependent line ("Remove `" ++ field ++ "` from this destructuring")]
  else
    match FieldAccess.strip? field line.text with
    | some stripped =>
      [broken dependent line ("Reads removed field `" ++ field ++ "`"),
        automatic dependent line stripped ("Remove access to `." ++ field ++ "`")]
    | none => []

def changeTypeMarks (dependent : CodeNode) (field : String) (before after : Option String)
    (line : Line) : List LineMark :=
  if (FieldAccess.find field line.text).isEmpty then []
  else
    let conflict :=
      match before, after with
      | some before, some after =>
        if TypeConflict.breaks line.text before after then
          [broken dependent line
            ("`" ++ field ++ "` changes from `" ++ before ++ "` to `" ++ after ++ "`")]
        else []
      | _, _ => []
    conflict ++
      [suggestion dependent line ("Check this use of `" ++ field ++ "` against its new type (`" ++
        before.getD "?" ++ "` → `" ++ after.getD "?" ++ "`)")]

def statementLines (statement : ImportStatement) : List Nat :=
  List.range' statement.startLine (statement.endLine + 1 - statement.startLine)

def isImportLine (statements : List ImportStatement) (number : Nat) : Bool :=
  statements.any fun statement => statement.startLine ≤ number && number ≤ statement.endLine

def deleteMarks (dependent : CodeNode) (text : List Char) (name : String)
    (statement : ImportStatement) : List LineMark :=
  broken dependent (lineAt text statement.startLine) ("Imports from deleted `" ++ name ++ "`") ::
    (statementLines statement).map fun number =>
      automatic dependent (lineAt text number) [] ("Remove import of deleted `" ++ name ++ "`")

def marks (rule : Rule) (dependent : CodeNode) (text : List Char) (graph : DependencyGraph)
    (resolver : ImportResolver) : List LineMark :=
  match rule with
  | rename old new => (linesOf text).flatMap (renameMarks dependent old new)
  | addField typeName field fieldType =>
    let declared := (fieldType.map fun typeName => field ++ ": " ++ typeName).getD field
    (linesOf text).flatMap (addFieldMarks dependent typeName declared)
  | removeField field =>
    let statements := ImportStatement.parseAll text
    ((linesOf text).filter fun line => !isImportLine statements line.number).flatMap
      (removeFieldMarks dependent field)
  | changeType field before after =>
    let statements := ImportStatement.parseAll text
    ((linesOf text).filter fun line => !isImportLine statements line.number).flatMap
      (changeTypeMarks dependent field before after)
  | delete target name exports =>
    let statements := ImportStatement.targeting graph resolver text dependent.path target
    (statements.filter fun statement =>
      statement.importsModule || exports.any statement.importsName).flatMap
      (deleteMarks dependent text name)

def scan (rule : Rule) (dependent : CodeNode) (content : String) (graph : DependencyGraph)
    (resolver : ImportResolver) : Findings :=
  .ofMarks (rule.marks dependent content.toList graph resolver)

end Rule

end ChangeImpact
