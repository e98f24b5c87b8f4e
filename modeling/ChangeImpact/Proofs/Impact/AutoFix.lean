import ChangeImpact.Impact.Analysis
import ChangeImpact.Proofs.Ascending
import ChangeImpact.Proofs.Impact.LineFix
import ChangeImpact.Proofs.Impact.Marks

/-!
# The fixes of a report

The fixes that a report on a rename or on the removal of a field makes without asking each mend one
line of one file, the line with the text that they were made for, and no two of them the same line.
-/

namespace ChangeImpact

namespace Rule

/-! ## The fixes of one line -/

theorem pairwise_linesOf (text : List Char) :
    (linesOf text).Pairwise fun a b => a.number ≠ b.number := by
  have places : ((Text.linesChars text).zipIdx.map Prod.snd).Pairwise (· < ·) := by
    rw [List.zipIdx_map_snd]
    exact List.pairwise_lt_range'
  refine List.pairwise_map.mpr ((List.pairwise_map.mp places).imp ?_)
  intro a b before
  simp only
  omega

end Rule

/-- The patch mends a line: it is aimed at it, has its text, and has not been tried yet. -/
structure Patch.MendsLine (patch : Patch) (line : Rule.Line) : Prop where
  line_eq : patch.line = line.number
  oldCode_eq : patch.oldCode = String.ofList line.text
  untried : patch.error = none
  mends : Text.Mends line.text patch.newCode.toList

namespace LineMark

def autoFixes (marks : List LineMark) : List Patch :=
  (marks.filterMap (·.fix?)).filter (·.autoFixable)

theorem autoFixes_flatMap (lines : List Rule.Line) (f : Rule.Line → List LineMark) :
    autoFixes (lines.flatMap f) = lines.flatMap fun line => autoFixes (f line) := by
  simp only [autoFixes, List.filterMap_flatMap, List.filter_flatMap]

/-- At most one fix is made without asking, and it mends the line. -/
def MendsOnce (path : String) (line : Rule.Line) (marks : List LineMark) : Prop :=
  ∃ fix : Option Patch, autoFixes marks = fix.toList ∧
    ∀ patch ∈ fix, patch.path = path ∧ patch.MendsLine line

theorem mendsOnce_renameMarks (dependent : CodeNode) {old : String} {new : Option String}
    (oldSolid : Text.IsSolid old) (newSolid : ∀ name ∈ new, Text.IsSolid name) (line : Rule.Line) :
    MendsOnce dependent.path line (Rule.renameMarks dependent old new line) := by
  unfold Rule.renameMarks
  split
  · cases new with
    | none => exact ⟨none, rfl, fun patch mem => absurd mem (by simp)⟩
    | some new =>
      refine ⟨some _, rfl, ?_⟩
      rintro patch ⟨⟩
      have mends := Occurrence.mends_replace oldSolid (newSolid new rfl) line.text
      exact ⟨rfl, rfl, rfl, rfl, by simpa [Patch.create] using mends⟩
  · exact ⟨none, rfl, fun patch mem => absurd mem (by simp)⟩

theorem mendsOnce_removeFieldMarks (dependent : CodeNode) (field : String) (line : Rule.Line) :
    MendsOnce dependent.path line (Rule.removeFieldMarks dependent field line) := by
  unfold Rule.removeFieldMarks
  split
  · exact ⟨none, rfl, fun patch mem => absurd mem (by simp)⟩
  · split
    · next stripped found =>
      refine ⟨some _, rfl, ?_⟩
      rintro patch ⟨⟩
      have mends := FieldAccess.mends_strip? found
      exact ⟨rfl, rfl, rfl, rfl, by simpa [Patch.create] using mends⟩
    · exact ⟨none, rfl, fun patch mem => absurd mem (by simp)⟩

end LineMark

/-! ## The fixes of one file -/

/-- Fixes for one file that each mend one of its lines, and no two of them the same. -/
structure MendsText (path content : String) (fixes : List Patch) : Prop where
  own : ∀ patch ∈ fixes, patch.path = path ∧
    ∃ line ∈ Rule.linesOf content.toList, patch.MendsLine line
  apart : fixes.Pairwise fun a b => a.line ≠ b.line

theorem mendsText_flatMap {path content : String} {f : Rule.Line → List LineMark}
    (each : ∀ line, LineMark.MendsOnce path line (f line)) {lines : List Rule.Line}
    (among : lines.Sublist (Rule.linesOf content.toList)) :
    MendsText path content (LineMark.autoFixes (lines.flatMap f)) := by
  have line_eq : ∀ line, ∀ patch ∈ LineMark.autoFixes (f line),
      patch.path = path ∧ patch.MendsLine line := by
    intro line patch mem
    obtain ⟨fix, only, mends⟩ := each line
    rw [only] at mem
    exact mends patch (Option.mem_toList.mp mem)
  rw [LineMark.autoFixes_flatMap]
  constructor
  · intro patch mem
    obtain ⟨line, listed, mem⟩ := List.mem_flatMap.mp mem
    obtain ⟨ofPath, mends⟩ := line_eq line patch mem
    exact ⟨ofPath, line, among.subset listed, mends⟩
  · refine List.pairwise_flatMap.mpr ⟨?_, ?_⟩
    · intro line _
      obtain ⟨fix, only, -⟩ := each line
      rw [only]
      cases fix with
      | none => exact .nil
      | some patch => exact List.pairwise_singleton _ _
    · refine ((Rule.pairwise_linesOf content.toList).sublist among).imp ?_
      intro one other differ a memA b memB
      rw [(line_eq one a memA).2.line_eq, (line_eq other b memB).2.line_eq]
      exact differ

def Rule.MendsLines : Rule → Prop
  | .rename old new => Text.IsSolid old ∧ ∀ name ∈ new, Text.IsSolid name
  | .removeField _ => True
  | _ => False

theorem Rule.mendsText_marks {rule : Rule} (lineByLine : rule.MendsLines) (dependent : CodeNode)
    (content : String) (graph : DependencyGraph) (resolver : ImportResolver) :
    MendsText dependent.path content
      (LineMark.autoFixes (rule.marks dependent content.toList graph resolver)) := by
  cases rule with
  | rename old new =>
    obtain ⟨oldSolid, newSolid⟩ := lineByLine
    exact mendsText_flatMap (LineMark.mendsOnce_renameMarks dependent oldSolid newSolid)
      (List.Sublist.refl _)
  | removeField field =>
    exact mendsText_flatMap (LineMark.mendsOnce_removeFieldMarks dependent field)
      List.filter_sublist
  | addField typeName field fieldType => exact lineByLine.elim
  | changeType field before after => exact lineByLine.elim
  | delete target name exports => exact lineByLine.elim

/-- A rename between names without blanks, as identifiers are, or the removal of a field. -/
def ChangeDescriptor.MendsLines (change : ChangeDescriptor) (target : CodeNode) : Prop :=
  change.changeType = .rename ∧ Text.IsSolid (change.beforeName.getD target.name) ∧
      (∀ name, change.afterName = some name → Text.IsSolid name) ∨
    change.changeType = .removeField

theorem ChangeDescriptor.MendsLines.rule {change : ChangeDescriptor} {target : CodeNode}
    (lineByLine : change.MendsLines target) :
    ∀ rule, (Rule.requested change target).1 = some rule → rule.MendsLines := by
  intro rule made
  unfold Rule.requested at made
  rcases lineByLine with ⟨kind, oldSolid, newSolid⟩ | kind
  · rw [kind] at made
    obtain rfl := Option.some.inj made
    exact ⟨oldSolid, newSolid⟩
  · rw [kind] at made
    cases name : change.beforeName with
    | none => simp [name] at made
    | some field =>
      simp only [name, Option.some.injEq] at made
      exact made ▸ trivial

/-! ## The fixes of a report -/

section

variable {σ : Type} [SourceStore σ] {store : σ}

/-- Fixes that each mend one line of a file that can be read, and no two of them the same. -/
structure MendsFiles (store : σ) (fixes : List Patch) : Prop where
  own : ∀ patch ∈ fixes, ∃ content, SourceStore.read store patch.path = .ok content ∧
    ∃ line ∈ Rule.linesOf content.toList, patch.MendsLine line
  apart : fixes.Pairwise fun a b => a.path = b.path → a.line ≠ b.line

namespace ImpactReport

variable {graph : DependencyGraph} {resolver : ImportResolver}

theorem hit?_scanDependent {rule : Rule} {dependent : CodeNode} {hit : CodeNode × Findings}
    (h : (scanDependent store graph resolver rule dependent).hit? = some hit) :
    ∃ content, SourceStore.read store dependent.path = .ok content ∧
      hit = (dependent, rule.scan dependent content graph resolver) := by
  unfold scanDependent at h
  cases readable : SourceStore.read store dependent.path with
  | error cause => simp [readable, Scan.hit?] at h
  | ok content =>
    simp only [readable, Scan.hit?] at h
    split at h
    · simp at h
    · exact ⟨content, rfl, (Option.some.inj h).symm⟩

/-- Where nodes are identified by their paths, no file is scanned twice. -/
theorem pairwise_path_dependents (paths : ∀ node ∈ graph.nodes, node.id = node.path) (id : NodeId) :
    (graph.dependents id).Pairwise fun a b => a.path ≠ b.path := by
  have ids : (graph.dependentIds id).Nodup := Ascending.nodup_ofList _
  refine List.Pairwise.filterMap _ ?_ ids
  intro first second differ a found b found'
  have idA : a.id = first := by simpa using List.find?_some found
  have idB : b.id = second := by simpa using List.find?_some found'
  rw [← paths a (List.mem_of_find?_eq_some found), ← paths b (List.mem_of_find?_eq_some found'),
    idA, idB]
  exact differ

theorem mendsFiles_hits (paths : ∀ node ∈ graph.nodes, node.id = node.path) {rule : Rule}
    (lineByLine : rule.MendsLines) (id : NodeId) :
    MendsFiles store ((((graph.dependents id).filterMap fun dependent =>
      (scanDependent store graph resolver rule dependent).hit?).flatMap (·.2.fixes)).filter
        (·.autoFixable)) := by
  have hits : ∀ hit : CodeNode × Findings, ∀ dependent,
      (scanDependent store graph resolver rule dependent).hit? = some hit →
        hit.1 = dependent ∧ ∃ content, SourceStore.read store dependent.path = .ok content ∧
          MendsText dependent.path content (hit.2.fixes.filter (·.autoFixable)) := by
    intro hit dependent made
    obtain ⟨content, readable, rfl⟩ := hit?_scanDependent made
    exact ⟨rfl, content, readable, rule.mendsText_marks lineByLine dependent content graph resolver⟩
  rw [List.filter_flatMap]
  constructor
  · intro patch mem
    obtain ⟨hit, listed, mem⟩ := List.mem_flatMap.mp mem
    obtain ⟨dependent, -, made⟩ := List.mem_filterMap.mp listed
    obtain ⟨-, content, readable, mends⟩ := hits hit dependent made
    obtain ⟨ofPath, line, mends⟩ := mends.own patch mem
    exact ⟨content, ofPath ▸ readable, line, mends⟩
  · -- Two fixes of one file differ in their lines, and fixes of two files in their paths.
    refine List.pairwise_flatMap.mpr ⟨?_, ?_⟩
    · intro hit listed
      obtain ⟨dependent, -, made⟩ := List.mem_filterMap.mp listed
      obtain ⟨-, content, -, mends⟩ := hits hit dependent made
      refine mends.apart.imp ?_
      intro a b differ _
      exact differ
    · refine List.Pairwise.filterMap _ ?_ (pairwise_path_dependents paths id)
      intro one other differ hit made hit' made' a memA b memB same
      obtain ⟨-, content, -, mends⟩ := hits hit one made
      obtain ⟨-, content', -, mends'⟩ := hits hit' other made'
      have samePath := (mends.own a memA).1.symm.trans (same.trans (mends'.own b memB).1)
      exact absurd samePath differ

theorem mendsFiles_autoFixes (paths : ∀ node ∈ graph.nodes, node.id = node.path)
    {change : ChangeDescriptor} {target : CodeNode} (lineByLine : change.MendsLines target)
    (refusal? : Pattern → Option String) :
    MendsFiles store (ofTarget graph store resolver change target refusal?).autoFixes := by
  cases made : (Rule.ofChange change target refusal?).1 with
  | none =>
    have none : (ofTarget graph store resolver change target refusal?).autoFixes = [] := by
      simp [autoFixes, ofTarget, made]
    rw [none]
    exact ⟨fun patch mem => absurd mem List.not_mem_nil, .nil⟩
  | some rule =>
    have hits := @mendsFiles_hits σ _ store graph resolver paths rule
      (lineByLine.rule rule (Rule.requested_of_ofChange made)) target.id
    simpa [autoFixes, ofTarget, made, List.filterMap_map, Function.comp_def] using hits

end ImpactReport

end

end ChangeImpact
