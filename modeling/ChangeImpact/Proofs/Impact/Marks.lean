import ChangeImpact.Impact.Rule
import ChangeImpact.Proofs.Ascending
import ChangeImpact.Proofs.Source.StatementLines

/-!
# The lines that a rule marks

Whatever the rule, each mark is about the file that is scanned and made on one of its lines, and the
lines of the findings are those of the marks, ascending.
-/

namespace ChangeImpact

inductive LineMark.IsOn (dependent : CodeNode) (line : Rule.Line) : LineMark → Prop
  | broken (reason : String) : IsOn dependent line (Rule.broken dependent line reason)
  | suggestion (description : String) :
    IsOn dependent line (Rule.suggestion dependent line description)
  | automatic (newCode : List Char) (description : String) :
    IsOn dependent line (Rule.automatic dependent line newCode description)

namespace LineMark.IsOn

variable {dependent : CodeNode} {line : Rule.Line} {mark : LineMark}

theorem line_eq (isOn : mark.IsOn dependent line) : mark.line = line.number := by
  cases isOn <;> rfl

/-- What breaks on a line of a dependent is in the dependent, and its code is the line, trimmed. -/
theorem of_breaking {change : BreakingChange}
    (isOn : (LineMark.breaking change).IsOn dependent line) :
    change.nodeId = dependent.id ∧ change.path = dependent.path ∧
      change.code = Text.trim (String.ofList line.text) := by
  cases isOn with
  | broken reason => exact ⟨rfl, rfl, by simp [Text.trim]⟩

/-- A patch for a line of a dependent is aimed at its file, and its old text is the line. -/
theorem of_fix {patch : Patch} (isOn : (LineMark.fix patch).IsOn dependent line) :
    patch.path = dependent.path ∧ patch.oldCode = String.ofList line.text := by
  cases isOn <;> exact ⟨rfl, rfl⟩

end LineMark.IsOn

namespace Rule

/-- A rule that is made is the one asked for. -/
theorem requested_of_ofChange {change : ChangeDescriptor} {target : CodeNode}
    {refusal? : Pattern → Option String} {rule : Rule}
    (made : (ofChange change target refusal?).1 = some rule) :
    (requested change target).1 = some rule := by
  unfold ofChange at made
  dsimp only at made
  split at made
  · cases made
  · exact made

variable {dependent : CodeNode} {line : Line} {mark : LineMark}

/-! ## The marks of one line -/

theorem isOn_of_mem_renameMarks {old : String} {new : Option String}
    (mem : mark ∈ renameMarks dependent old new line) : mark.IsOn dependent line := by
  unfold renameMarks at mem
  split at mem
  · rcases List.mem_cons.mp mem with rfl | mem
    · exact .broken _
    · obtain ⟨name, -, rfl⟩ := List.mem_map.mp mem
      exact .automatic _ _
  · simp at mem

theorem isOn_of_mem_addFieldMarks {typeName declared : String}
    (mem : mark ∈ addFieldMarks dependent typeName declared line) : mark.IsOn dependent line := by
  unfold addFieldMarks at mem
  split at mem
  · obtain rfl := List.mem_singleton.mp mem
    exact .suggestion _
  · simp at mem

theorem isOn_of_mem_removeFieldMarks {field : String}
    (mem : mark ∈ removeFieldMarks dependent field line) : mark.IsOn dependent line := by
  unfold removeFieldMarks at mem
  split at mem
  · rcases List.mem_cons.mp mem with rfl | mem
    · exact .broken _
    · obtain rfl := List.mem_singleton.mp mem
      exact .suggestion _
  · split at mem
    · rcases List.mem_cons.mp mem with rfl | mem
      · exact .broken _
      · obtain rfl := List.mem_singleton.mp mem
        exact .automatic _ _
    · simp at mem

theorem isOn_of_mem_changeTypeMarks {field : String} {before after : Option String}
    (mem : mark ∈ changeTypeMarks dependent field before after line) :
    mark.IsOn dependent line := by
  unfold changeTypeMarks at mem
  split at mem
  · simp at mem
  · rcases List.mem_append.mp mem with conflict | use
    · split at conflict
      · split at conflict
        · obtain rfl := List.mem_singleton.mp conflict
          exact .broken _
        · simp at conflict
      · simp at conflict
    · obtain rfl := List.mem_singleton.mp use
      exact .suggestion _

theorem isOn_of_mem_deleteMarks {text : List Char} {name : String} {statement : ImportStatement}
    (within : statement.LiesIn text) (mem : mark ∈ deleteMarks dependent text name statement) :
    ∃ number, statement.startLine ≤ number ∧ number ≤ statement.endLine ∧
      mark.IsOn dependent (lineAt text number) := by
  rcases List.mem_cons.mp mem with rfl | mem
  · exact ⟨_, Nat.le_refl _, within.start_le, .broken _⟩
  · obtain ⟨number, among, rfl⟩ := List.mem_map.mp mem
    obtain ⟨least, most⟩ := List.mem_range'_1.mp among
    exact ⟨number, least, by omega, .automatic _ _⟩

/-! ## The marks of one file -/

theorem getElem?_of_mem_linesOf {text : List Char} (mem : line ∈ linesOf text) :
    1 ≤ line.number ∧ (Text.linesChars text)[line.number - 1]? = some line.text := by
  obtain ⟨⟨chars, index⟩, numbered, rfl⟩ := List.mem_map.mp mem
  exact ⟨Nat.le_add_left 1 index, List.mem_zipIdx_iff_getElem?.mp numbered⟩

theorem eq_of_number_eq {text : List Char} {other : Line} (mem : line ∈ linesOf text)
    (mem' : other ∈ linesOf text) (same : line.number = other.number) : line = other := by
  have place := (getElem?_of_mem_linesOf mem).2
  rw [same, (getElem?_of_mem_linesOf mem').2] at place
  cases line
  cases other
  simp_all

theorem lines_of_mem_linesOf {content : String} (mem : line ∈ linesOf content.toList) :
    1 ≤ line.number ∧ (Text.lines content)[line.number - 1]? = some (String.ofList line.text) := by
  obtain ⟨least, place⟩ := getElem?_of_mem_linesOf mem
  exact ⟨least, by rw [Text.lines, List.getElem?_map, place]; rfl⟩

theorem lineAt_mem_linesOf {text : List Char} {number : Nat} (least : 1 ≤ number)
    (most : number ≤ (Text.linesChars text).length) : lineAt text number ∈ linesOf text := by
  have bound : number - 1 < (Text.linesChars text).length := by omega
  have place : (Text.linesChars text)[number - 1]? = some (lineAt text number).text := by
    simp [lineAt, List.getElem?_eq_getElem bound]
  refine List.mem_map.mpr ⟨((lineAt text number).text, number - 1), ?_, ?_⟩
  · exact List.mem_zipIdx_iff_getElem?.mpr place
  · simp [lineAt, Nat.sub_add_cancel least]

def SkipsImports : Rule → Prop
  | removeField _ => True
  | changeType _ _ _ => True
  | _ => False

/-- Each mark of a rule is on a line of the file, and not on one of an import if the rule skips
these. -/
theorem isOn_of_mem_marks {rule : Rule} {text : List Char} {graph : DependencyGraph}
    {resolver : ImportResolver} (mem : mark ∈ rule.marks dependent text graph resolver) :
    ∃ line ∈ linesOf text, mark.IsOn dependent line ∧
      (rule.SkipsImports → isImportLine (ImportStatement.parseAll text) line.number = false) := by
  cases rule with
  | rename old new =>
    obtain ⟨line, listed, mem⟩ := List.mem_flatMap.mp mem
    exact ⟨line, listed, isOn_of_mem_renameMarks mem, False.elim⟩
  | addField typeName field fieldType =>
    obtain ⟨line, listed, mem⟩ := List.mem_flatMap.mp mem
    exact ⟨line, listed, isOn_of_mem_addFieldMarks mem, False.elim⟩
  | removeField field =>
    obtain ⟨line, listed, mem⟩ := List.mem_flatMap.mp mem
    obtain ⟨listed, outside⟩ := List.mem_filter.mp listed
    exact ⟨line, listed, isOn_of_mem_removeFieldMarks mem, fun _ => by simpa using outside⟩
  | changeType field before after =>
    obtain ⟨line, listed, mem⟩ := List.mem_flatMap.mp mem
    obtain ⟨listed, outside⟩ := List.mem_filter.mp listed
    exact ⟨line, listed, isOn_of_mem_changeTypeMarks mem, fun _ => by simpa using outside⟩
  | delete target name exports =>
    obtain ⟨statement, listed, mem⟩ := List.mem_flatMap.mp mem
    have within : statement.LiesIn text :=
      ImportStatement.liesIn_of_mem_parseAll (List.mem_filter.mp (List.mem_filter.mp listed).1).1
    obtain ⟨number, least, most, isOn⟩ := isOn_of_mem_deleteMarks within mem
    exact ⟨_, lineAt_mem_linesOf (Nat.le_trans within.start_pos least)
      (Nat.le_trans most within.end_le), isOn, False.elim⟩

end Rule

/-! ## Findings -/

namespace Findings

variable {marks : List LineMark}

theorem mem_lines {number : Nat} :
    number ∈ (ofMarks marks).lines ↔ ∃ mark ∈ marks, mark.line = number := by
  rw [ofMarks, Ascending.mem_ofList, List.mem_map]

theorem mem_breaking {change : BreakingChange} :
    change ∈ (ofMarks marks).breaking ↔ .breaking change ∈ marks := by
  simp only [ofMarks, List.mem_filterMap]
  constructor
  · rintro ⟨mark, mem, same⟩
    cases mark with
    | breaking other => exact Option.some.inj same ▸ mem
    | fix patch => cases same
  · intro mem
    exact ⟨_, mem, rfl⟩

theorem mem_fixes {patch : Patch} : patch ∈ (ofMarks marks).fixes ↔ .fix patch ∈ marks := by
  simp only [ofMarks, List.mem_filterMap]
  constructor
  · rintro ⟨mark, mem, same⟩
    cases mark with
    | breaking change => cases same
    | fix other => exact Option.some.inj same ▸ mem
  · intro mem
    exact ⟨_, mem, rfl⟩

/-- Findings in a dependent with a given text: the lines are lines of the text, and they are those
of what breaks in the dependent and of the patches for it. -/
structure AreIn (findings : Findings) (dependent : CodeNode) (content : String) : Prop where
  ascending : findings.lines.Pairwise (· < ·)
  inside : ∀ line ∈ findings.lines, 1 ≤ line ∧ line ≤ (Text.lines content).length
  marked : ∀ line ∈ findings.lines, (∃ change ∈ findings.breaking, change.line = line) ∨
    ∃ patch ∈ findings.fixes, patch.line = line
  breaking : ∀ change ∈ findings.breaking, change.nodeId = dependent.id ∧
    change.path = dependent.path ∧ change.line ∈ findings.lines
  fixes : ∀ patch ∈ findings.fixes, patch.path = dependent.path ∧ patch.line ∈ findings.lines

end Findings

namespace Rule

variable (rule : Rule) (dependent : CodeNode) (graph : DependencyGraph) (resolver : ImportResolver)

theorem areIn_scan (content : String) :
    (rule.scan dependent content graph resolver).AreIn dependent content := by
  constructor
  · exact Ascending.pairwise_ofList_nat _
  · intro number mem
    obtain ⟨mark, listed, rfl⟩ := Findings.mem_lines.mp mem
    obtain ⟨line, inFile, isOn, -⟩ := isOn_of_mem_marks listed
    obtain ⟨least, place⟩ := lines_of_mem_linesOf inFile
    have inside := (List.getElem?_eq_some_iff.mp place).1
    rw [isOn.line_eq]
    omega
  · intro number mem
    obtain ⟨mark, listed, rfl⟩ := Findings.mem_lines.mp mem
    cases mark with
    | breaking change => exact .inl ⟨change, Findings.mem_breaking.mpr listed, rfl⟩
    | fix patch => exact .inr ⟨patch, Findings.mem_fixes.mpr listed, rfl⟩
  · intro change mem
    have listed := Findings.mem_breaking.mp mem
    obtain ⟨line, -, isOn, -⟩ := isOn_of_mem_marks listed
    exact ⟨isOn.of_breaking.1, isOn.of_breaking.2.1, Findings.mem_lines.mpr ⟨_, listed, rfl⟩⟩
  · intro patch mem
    have listed := Findings.mem_fixes.mp mem
    obtain ⟨line, -, isOn, -⟩ := isOn_of_mem_marks listed
    exact ⟨isOn.of_fix.1, Findings.mem_lines.mpr ⟨_, listed, rfl⟩⟩

theorem scan_empty : rule.scan dependent "" graph resolver = .ofMarks [] := by
  have none : rule.marks dependent "".toList graph resolver = [] := by
    refine List.eq_nil_iff_forall_not_mem.mpr fun mark mem => ?_
    obtain ⟨line, inFile, -, -⟩ := isOn_of_mem_marks mem
    have lines : linesOf "".toList = [] := rfl
    rw [lines] at inFile
    exact absurd inFile List.not_mem_nil
  rw [scan, none]

end Rule

end ChangeImpact
