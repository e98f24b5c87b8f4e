import ChangeImpact.Proofs.Impact.Marks

/-!
# Findings quote the file

Each finding of a rule names a line of the file that was scanned and has the text of this line: a
patch as it is, and what breaks without the blanks around it. The rules about a field find nothing
on the lines of import statements.
-/

namespace ChangeImpact

/-- Findings in a dependent that have the texts of their lines, and are empty together. -/
structure Findings.Quote (findings : Findings) (dependent : CodeNode) (content : String) : Prop
    extends findings.AreIn dependent content where
  lines_ne_nil_iff : findings.lines ≠ [] ↔ findings.breaking ≠ [] ∨ findings.fixes ≠ []
  oldCode : ∀ patch ∈ findings.fixes,
    (Text.lines content)[patch.line - 1]? = some patch.oldCode
  code : ∀ change ∈ findings.breaking, ∃ text,
    (Text.lines content)[change.line - 1]? = some text ∧ change.code = Text.trim text

def Findings.AvoidImports (findings : Findings) (content : String) : Prop :=
  ∀ line ∈ findings.lines, ∀ statement ∈ ImportStatement.parseAll content.toList,
    ¬ (statement.startLine ≤ line ∧ line ≤ statement.endLine)

namespace Findings.AreIn

variable {findings : Findings} {dependent : CodeNode} {content : String}

theorem lines_ne_nil_iff (areIn : findings.AreIn dependent content) :
    findings.lines ≠ [] ↔ findings.breaking ≠ [] ∨ findings.fixes ≠ [] := by
  constructor
  · intro some
    obtain ⟨line, mem⟩ := List.exists_mem_of_ne_nil _ some
    rcases areIn.marked line mem with ⟨change, listed, -⟩ | ⟨patch, listed, -⟩
    · exact .inl (List.ne_nil_of_mem listed)
    · exact .inr (List.ne_nil_of_mem listed)
  · rintro (some | some)
    · obtain ⟨change, listed⟩ := List.exists_mem_of_ne_nil _ some
      exact List.ne_nil_of_mem (areIn.breaking change listed).2.2
    · obtain ⟨patch, listed⟩ := List.exists_mem_of_ne_nil _ some
      exact List.ne_nil_of_mem (areIn.fixes patch listed).2

end Findings.AreIn

namespace Rule

variable {change : ChangeDescriptor} {target dependent : CodeNode} {rule : Rule} {content : String}
  {refusal? : Pattern → Option String}
  {graph : DependencyGraph} {resolver : ImportResolver}

theorem quote_scan (rule : Rule) (dependent : CodeNode) (content : String) (graph : DependencyGraph)
    (resolver : ImportResolver) :
    (rule.scan dependent content graph resolver).Quote dependent content where
  toAreIn := rule.areIn_scan dependent graph resolver content
  lines_ne_nil_iff := (rule.areIn_scan dependent graph resolver content).lines_ne_nil_iff
  oldCode patch mem := by
    obtain ⟨line, inFile, isOn, -⟩ := isOn_of_mem_marks (Findings.mem_fixes.mp mem)
    have number : patch.line = line.number := isOn.line_eq
    rw [number, isOn.of_fix.2]
    exact (lines_of_mem_linesOf inFile).2
  code change mem := by
    obtain ⟨line, inFile, isOn, -⟩ := isOn_of_mem_marks (Findings.mem_breaking.mp mem)
    have number : change.line = line.number := isOn.line_eq
    rw [number]
    exact ⟨_, (lines_of_mem_linesOf inFile).2, isOn.of_breaking.2.2⟩

theorem avoidImports_scan (skips : rule.SkipsImports) :
    (rule.scan dependent content graph resolver).AvoidImports content := by
  intro number mem statement listed covers
  obtain ⟨mark, made, rfl⟩ := Findings.mem_lines.mp mem
  obtain ⟨line, -, isOn, outside⟩ := isOn_of_mem_marks made
  rw [isOn.line_eq] at covers
  have covered : isImportLine (ImportStatement.parseAll content.toList) line.number = true :=
    List.any_eq_true.mpr ⟨statement, listed, by simpa using covers⟩
  rw [outside skips] at covered
  cases covered

theorem skipsImports_of_requested (made : (requested change target).1 = some rule)
    (aboutField : change.changeType = .removeField ∨ change.changeType = .changeType) :
    rule.SkipsImports := by
  unfold requested at made
  rcases aboutField with kind | kind <;> simp only [kind] at made <;> split at made
  all_goals first
    | exact Option.some.inj made ▸ trivial
    | cases made

/-- Whatever the change that makes a rule, what the rule finds in a file quotes the file, and the
removal of a field and the change of its type find nothing on the lines of imports. -/
theorem ofChange_findings_quote (made : (ofChange change target refusal?).1 = some rule)
    (dependent : CodeNode) (content : String) (graph : DependencyGraph)
    (resolver : ImportResolver) :
    let findings := rule.scan dependent content graph resolver
    findings.Quote dependent content ∧
      (change.changeType = .removeField ∨ change.changeType = .changeType →
        findings.AvoidImports content) :=
  ⟨rule.quote_scan dependent content graph resolver,
    fun aboutField =>
      avoidImports_scan (skipsImports_of_requested (requested_of_ofChange made) aboutField)⟩

/-- A field is read behind an import over two lines, in a file whose lines end in a carriage return
and a line feed, and the last one does not. -/
theorem ofChange_findings_quote_two_reads :
    let node (path : String) : CodeNode := ⟨path, .file, path, path, 1, 1, [], [], .none⟩
    let content := "import \x7b a \x7d\r\n  from './b.age'\r\n  f(a.age)\r\n\r\na?.age"
    let change : ChangeDescriptor := ⟨"b.ts", .removeField, some ⟨some "age", none⟩, none⟩
    ∃ rule, (ofChange change (node "b.ts")).1 = some rule ∧
      (rule.scan (node "a.ts") content .empty ⟨"@/", ""⟩).lines = [3, 5] ∧
      (rule.scan (node "a.ts") content .empty ⟨"@/", ""⟩).Quote (node "a.ts") content ∧
      (rule.scan (node "a.ts") content .empty ⟨"@/", ""⟩).AvoidImports content := by
  intro node content change
  have made : (ofChange change (node "b.ts")).1 = some (.removeField "age") := rfl
  obtain ⟨quote, avoid⟩ := ofChange_findings_quote made (node "a.ts") content .empty ⟨"@/", ""⟩
  exact ⟨_, made, by decide, quote, avoid (.inl rfl)⟩

end Rule

end ChangeImpact
