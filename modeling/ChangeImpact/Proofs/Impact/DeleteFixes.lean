import ChangeImpact.Proofs.Impact.ApplyFixes
import ChangeImpact.Proofs.Source.StatementSpans

/-!
# Taking out the imports of a deleted file

A rule for a deletion takes out every line of the statements that need the deleted file. Where the
statements of a text share no line, no line is taken out twice, and all of its patches are made.
-/

namespace ChangeImpact

open ImportStatement (Apart StopAtKeywords)

namespace Rule

variable {dependent : CodeNode} {content name : String}

def deletion (dependent : CodeNode) (text : List Char) (name : String) (number : Nat) : Patch :=
  Patch.create dependent.path number (String.ofList (lineAt text number).text) ""
    ("Remove import of deleted `" ++ name ++ "`") true

theorem fixes_deleteMarks (dependent : CodeNode) (text : List Char) (name : String)
    (statement : ImportStatement) :
    (deleteMarks dependent text name statement).filterMap (·.fix?) =
      (statementLines statement).map (deletion dependent text name) := by
  simp only [deleteMarks, broken, List.filterMap_cons, LineMark.fix?, List.filterMap_map]
  rw [← List.filterMap_eq_map]
  rfl

theorem mem_statementLines {statement : ImportStatement} {number : Nat} :
    number ∈ statementLines statement ↔
      statement.startLine ≤ number ∧ number ≤ statement.endLine := by
  rw [statementLines, List.mem_range'_1]
  omega

theorem mendsLine_deletion {number : Nat} (name : String) (within : 1 ≤ number)
    (inside : number ≤ (Text.linesChars content.toList).length) :
    (deletion dependent content.toList name number).path = dependent.path ∧
      ∃ line ∈ linesOf content.toList,
        (deletion dependent content.toList name number).MendsLine line := by
  refine ⟨rfl, lineAt content.toList number, lineAt_mem_linesOf within inside, rfl, rfl, rfl, ?_⟩
  exact ⟨fun _ => rfl, fun some => absurd rfl some, fun c mem => absurd mem List.not_mem_nil⟩

theorem mendsText_deletions {statements : List ImportStatement} (name : String)
    (within : ∀ statement ∈ statements, statement.LiesIn content.toList)
    (apart : statements.Pairwise Apart) :
    MendsText dependent.path content (statements.flatMap fun statement =>
      (statementLines statement).map (deletion dependent content.toList name)) := by
  constructor
  · intro patch mem
    obtain ⟨statement, listed, mem⟩ := List.mem_flatMap.mp mem
    obtain ⟨number, covered, rfl⟩ := List.mem_map.mp mem
    obtain ⟨least, most⟩ := mem_statementLines.mp covered
    have lies := within statement listed
    exact mendsLine_deletion name (Nat.le_trans lies.start_pos least)
      (Nat.le_trans most lies.end_le)
  · refine List.pairwise_flatMap.mpr ⟨fun statement _ => ?_, apart.imp ?_⟩
    · exact List.pairwise_map.mpr List.nodup_range'
    · intro one other apart a memA b memB
      obtain ⟨number, covered, rfl⟩ := List.mem_map.mp memA
      obtain ⟨number', covered', rfl⟩ := List.mem_map.mp memB
      rw [mem_statementLines] at covered covered'
      intro same
      obtain rfl : number = number' := same
      rcases apart with before | after <;> omega

/-- The fixes of a deletion where the statements of the text share no line. -/
theorem mendsText_delete (apart : (ImportStatement.parseAll content.toList).Pairwise Apart)
    (dependent : CodeNode) (graph : DependencyGraph) (resolver : ImportResolver) (target : NodeId)
    (name : String) (exports : List String) :
    MendsText dependent.path content
      ((delete target name exports).scan dependent content graph resolver).fixes := by
  have fixes : ((delete target name exports).scan dependent content graph resolver).fixes =
      ((ImportStatement.targeting graph resolver content.toList dependent.path target).filter
        fun statement => statement.importsModule || exports.any statement.importsName).flatMap
          fun statement =>
            (statementLines statement).map (deletion dependent content.toList name) := by
    simp only [scan, Findings.ofMarks, marks, List.filterMap_flatMap, fixes_deleteMarks]
  rw [fixes]
  have among := (List.filter_sublist (l := ImportStatement.targeting graph resolver content.toList
    dependent.path target) (p := fun statement =>
      statement.importsModule || exports.any statement.importsName)).trans List.filter_sublist
  refine mendsText_deletions name (fun statement mem => ?_) (apart.sublist among)
  exact ImportStatement.liesIn_of_mem_parseAll (among.subset mem)

end Rule

namespace PatchEngine

/-- The statements of a text share no line if no import shares one with a re-export, as is so where
no statement runs on over a line that begins with the keyword of the other kind. Then a deletion
takes out no line twice, and on the unchanged file all of its patches are made as they are. -/
theorem deletion_applies {σ : Type} [SourceStore σ] [LawfulStore σ] (engine : PatchEngine)
    (store : σ) (content : String) :
    let statements := ImportStatement.parseAll content.toList
    (statements.Pairwise Apart ↔ ∀ one ∈ statements, ∀ other ∈ statements,
      one.reexport = false → other.reexport = true → one.Apart other) ∧
    (StopAtKeywords content.toList → statements.Pairwise Apart) ∧
    (statements.Pairwise Apart → ∀ (dependent : CodeNode) (graph : DependencyGraph)
        (resolver : ImportResolver) (target : NodeId) (name : String) (exports : List String),
      let rule := Rule.delete target name exports
      let fixes := (rule.scan dependent content graph resolver).fixes
      let outcome := engine.apply store fixes
      fixes.Pairwise (fun a b => a.line ≠ b.line) ∧
      (SourceStore.read store dependent.path = .ok content → SourceStore.AcceptsWrites store →
        outcome.2.2.success = true ∧ outcome.2.2.patchesFailed = [] ∧
        outcome.2.2.patchesApplied.Perm (fixes.map fun fix => { fix with applied := some true }) ∧
        (fixes ≠ [] → SourceStore.read outcome.2.1 dependent.path =
          .ok (Document.render { Document.parse content with
            lines := Patch.mendedFrom fixes 1 (Text.lines content) })))) := by
  intro statements
  refine ⟨ImportStatement.pairwise_apart_iff _, StopAtKeywords.pairwise_apart, ?_⟩
  intro apart dependent graph resolver target name exports rule fixes outcome
  have mends : MendsText dependent.path content fixes :=
    Rule.mendsText_delete apart dependent graph resolver target name exports
  refine ⟨mends.apart, fun readable accepts => ?_⟩
  by_cases none : fixes = []
  · have nothing : outcome.2.2 = .empty := by simp [outcome, none, apply, applyAll, Ascending.ofList]
    rw [nothing, none]
    exact ⟨rfl, rfl, .nil, fun some => absurd rfl some⟩
  · obtain ⟨after, written⟩ := accepts dependent.path (Document.render
      { Document.parse content with lines := Patch.editedFrom fixes 1 (Text.lines content) })
    have perm := mends.fitsLines.filePatches_perm
    have records : (filePatches .apply fixes dependent.path).map
        (Patch.asMade (Document.parse content).lines) =
          (filePatches .apply fixes dependent.path).map Patch.asIs := mends.map_asMade perm
    have made := apply_of_fitsLines engine readable mends.fitsLines none written
    rw [records] at made
    have made : outcome = (engine.record ((filePatches .apply fixes dependent.path).map Patch.asIs),
        after, .ofParts ((filePatches .apply fixes dependent.path).map Patch.asIs) [] []
          [dependent.path]) := made
    rw [mends.editedFrom_eq] at written
    rw [made]
    refine ⟨rfl, rfl, ?_, fun _ => LawfulStore.read_write readable written⟩
    rw [PatchApplyResult.patchesApplied_ofParts]
    exact perm.map Patch.asIs

/-- An import over two lines and a re-export over three. -/
theorem deletion_applies_two_statements :
    let content := "import \x7b a \x7d\n  from './b'\nexport \x7b\n  c,\n\x7d from './b'\nrun(a)\n"
    let node (path : String) : CodeNode := ⟨path, .file, path, path, 1, 1, [], [], .none⟩
    let graph : DependencyGraph := ⟨[node "a.ts", node "b.ts"], [], by decide, by decide⟩
    let store : MemoryStore := { files := [("a.ts", content)] }
    let fixes := ((Rule.delete "b.ts" "b" ["a", "c"]).scan (node "a.ts") content graph
      ⟨"@/", ""⟩).fixes
    let outcome := (ofConfig .default).apply store fixes
    StopAtKeywords content.toList ∧ fixes.map (·.line) = [1, 2, 3, 4, 5] ∧
      outcome.2.2.success = true ∧ SourceStore.read outcome.2.1 "a.ts" = .ok "run(a)\n" := by
  intro content node graph store
  have stop : StopAtKeywords content.toList := by decide
  have lines : ((Rule.delete "b.ts" "b" ["a", "c"]).scan (node "a.ts") content graph
      ⟨"@/", ""⟩).fixes.map (·.line) = [1, 2, 3, 4, 5] := by decide
  have some : ((Rule.delete "b.ts" "b" ["a", "c"]).scan (node "a.ts") content graph
      ⟨"@/", ""⟩).fixes ≠ [] := by
    intro none
    simp [none] at lines
  have text : Document.render { Document.parse content with
      lines := Patch.mendedFrom ((Rule.delete "b.ts" "b" ["a", "c"]).scan (node "a.ts") content
        graph ⟨"@/", ""⟩).fixes 1 (Text.lines content) } = "run(a)\n" := by decide
  have readable : SourceStore.read store (node "a.ts").path = .ok content := by decide
  have accepts : SourceStore.AcceptsWrites store := MemoryStore.acceptsWrites rfl
  obtain ⟨-, keeps, applies⟩ := deletion_applies (ofConfig .default) store content
  obtain ⟨-, made⟩ := applies (keeps stop) (node "a.ts") graph ⟨"@/", ""⟩ "b.ts" "b" ["a", "c"]
  obtain ⟨success, -, -, file⟩ := made readable accepts
  exact ⟨stop, lines, success, (file some).trans (congrArg Except.ok text)⟩

/-- What looks like an import and is none runs on into the re-export below it: both cover the second
line, which a deletion takes out twice. -/
theorem deletion_repeats_line :
    let content := "import A = N.A\nexport { b } from './b'\n"
    let node (path : String) : CodeNode := ⟨path, .file, path, path, 1, 1, [], [], .none⟩
    let graph : DependencyGraph := ⟨[node "a.ts", node "b.ts"], [], by decide, by decide⟩
    let store : MemoryStore := { files := [("a.ts", content)] }
    let fixes := ((Rule.delete "b.ts" "b" ["b"]).scan (node "a.ts") content graph
      ⟨"@/", ""⟩).fixes
    ¬ (ImportStatement.parseAll content.toList).Pairwise Apart ∧
      fixes.map (·.line) = [1, 2, 2] ∧
      ((ofConfig .default).apply store fixes).2.2.success = false := by
  decide

end PatchEngine

end ChangeImpact
