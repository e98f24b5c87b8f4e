import ChangeImpact.Proofs.Ascending
import ChangeImpact.Proofs.Source.StatementMatch

/-!
# Reading the statements that were written

Each statement pattern finds the written statements of its kind, at their starts, and nothing else.
The three kinds together are all statements, and each begins on a later line than the one before it,
so sorting them by their lines gives back the statements in the order they were written in.
-/

namespace ChangeImpact

namespace ImportSyntax

open Pattern ImportStatement

section

variable (p : Pattern) (bind : List Char → ImportClause) (reexport sideEffect : Bool)
  (keep : ImportStatement → Bool)

/-- At its start the pattern finds a written statement, with what it binds as part 2. -/
structure FindsOne (statement : Statement) : Prop where
  kept (line : Nat) : keep (statement.read line) = true
  found {place : Cursor} {rest : List Char} (text : place.rest = statement.chars ++ rest)
    (begins : ∀ c ∈ place.before, c = '\n') :
    ∃ found, p.matchAt? place = some found ∧ statement.Shows place found
  read_eq (line : Nat) : statement.read line =
    ⟨line, line + statement.opening.count '\n', statement.specifier.text, statement.typeOnly,
      bind statement.bound, reexport, sideEffect⟩

structure SkipsOne (statement : Statement) : Prop where
  dropped (line : Nat) : keep (statement.read line) = false
  skipped {place : Cursor} {rest : List Char} (text : place.rest = statement.chars ++ rest) :
    p.matchAt? place = none

/-- The pattern begins a line, and of the written statements it finds those that are kept. -/
structure Finds : Prop where
  begins : ∃ word, IsKeyword word ∧ BeginsLine p word
  each (statement : Statement) :
    FindsOne p bind reexport sideEffect keep statement ∨ SkipsOne p keep statement

end

theorem import_ne_export : "import" ≠ "export" := by decide

theorem finds_importFrom : Finds importFrom ImportClause.parse false false
    fun statement => !statement.sideEffect && !statement.reexport := by
  refine ⟨⟨"import", .inl rfl, beginsLine_importFrom⟩, fun statement => ?_⟩
  cases statement with
  | importFrom typeOnly clause specifier =>
    refine .inl ⟨fun _ => rfl, exists_shows_importFrom, fun line => ?_⟩
    rw [Statement.bound, clause.parse_chars]
    rfl
  | importOnly specifier => exact .inr ⟨fun _ => rfl, importFrom_matchAt?_importOnly⟩
  | exportFrom typeOnly braces specifier =>
    exact .inr ⟨fun _ => rfl, (Statement.exportFrom typeOnly braces specifier).matchAt?_other_keyword
      beginsLine_importFrom import_ne_export⟩
  | exportAll typeOnly specifier =>
    exact .inr ⟨fun _ => rfl, (Statement.exportAll typeOnly specifier).matchAt?_other_keyword
      beginsLine_importFrom import_ne_export⟩

theorem finds_importOnly : Finds importOnly (fun _ => {}) false true
    fun statement => statement.sideEffect && !statement.reexport := by
  refine ⟨⟨"import", .inl rfl, beginsLine_importOnly⟩, fun statement => ?_⟩
  cases statement with
  | importFrom typeOnly clause specifier =>
    exact .inr ⟨fun _ => rfl, importOnly_matchAt?_importFrom⟩
  | importOnly specifier => exact .inl ⟨fun _ => rfl, exists_shows_importOnly, fun _ => rfl⟩
  | exportFrom typeOnly braces specifier =>
    exact .inr ⟨fun _ => rfl, (Statement.exportFrom typeOnly braces specifier).matchAt?_other_keyword
      beginsLine_importOnly import_ne_export⟩
  | exportAll typeOnly specifier =>
    exact .inr ⟨fun _ => rfl, (Statement.exportAll typeOnly specifier).matchAt?_other_keyword
      beginsLine_importOnly import_ne_export⟩

theorem finds_exportFrom : Finds exportFrom reexportClause true false (·.reexport) := by
  refine ⟨⟨"export", .inr rfl, beginsLine_exportFrom⟩, fun statement => ?_⟩
  cases statement with
  | importFrom typeOnly clause specifier =>
    exact .inr ⟨fun _ => rfl, (Statement.importFrom typeOnly clause specifier).matchAt?_other_keyword
      beginsLine_exportFrom import_ne_export.symm⟩
  | importOnly specifier =>
    exact .inr ⟨fun _ => rfl, (Statement.importOnly specifier).matchAt?_other_keyword
      beginsLine_exportFrom import_ne_export.symm⟩
  | exportFrom typeOnly braces specifier =>
    refine .inl ⟨fun _ => rfl, exists_shows_exportFrom, fun line => ?_⟩
    have entries : reexportClause braces.chars = { named := braces.named } :=
      (Clause.only (.named braces)).parse_chars
    rw [Statement.bound, entries]
    rfl
  | exportAll typeOnly specifier => exact .inl ⟨fun _ => rfl, exists_shows_exportAll, fun _ => rfl⟩

def readMatch (text : List Char) (bind : List Char → ImportClause) (reexport sideEffect : Bool)
    (found : Match) : ImportStatement :=
  ofMatch (Text.lineStarts text) found (bind (found.part 2)) reexport sideEffect

section

variable {p : Pattern} {bind : List Char → ImportClause} {reexport sideEffect : Bool}
  {keep : ImportStatement → Bool}

/-- Reading on over one statement: it is found if it is kept, and the search goes on behind it. -/
theorem Finds.step (finds : Finds p bind reexport sideEffect keep) (statement : Statement)
    {text front rest : List Char} (split : text = front ++ (statement.chars ++ rest))
    (starts : ∀ c ∈ front.getLast?, c = '\n') :
    (p.matchesOn ⟨front.getLast?, statement.chars ++ rest, Text.byteLength front⟩).map
        (readMatch text bind reexport sideEffect) =
      [statement.read (1 + front.count '\n')].filter keep ++
        (p.matchesOn ⟨(front ++ statement.chars).getLast?, rest,
          Text.byteLength (front ++ statement.chars)⟩).map
            (readMatch text bind reexport sideEffect) := by
  obtain ⟨word, keyword, begins⟩ := finds.begins
  let place : Cursor := ⟨front.getLast?, statement.chars ++ rest, Text.byteLength front⟩
  have next : place.past statement.chars rest = ⟨(front ++ statement.chars).getLast?, rest,
      Text.byteLength (front ++ statement.chars)⟩ := by
    simp [place, Cursor.past, List.getLast?_append, Text.byteLength_append]
  have within := @Statement.matchAt?_within statement p word begins keyword place rest
  rw [← next]
  rcases finds.each statement with finds | skips
  · obtain ⟨found, here, shows⟩ := @FindsOne.found _ _ _ _ _ _ finds place _ rfl starts
    have some : statement.chars ≠ [] := by simp [statement.chars_eq_body]
    have inside : found.stop.offset ≤ (place.past statement.chars rest).offset := by
      rw [shows.stop.offset]
      simp only [Cursor.past, Statement.chars, Text.byteLength_append]
      omega
    have read : readMatch text bind reexport sideEffect found =
        statement.read (1 + front.count '\n') := by
      rw [readMatch, shows.ofMatch_eq split rfl, shows.bound_eq, finds.read_eq]
    have matched : p.matchesOn place = found :: p.matchesOn (place.past statement.chars rest) :=
      matchesOn_found rfl some here inside fun front back split some some' =>
        .inr (within split some some')
    rw [matched, List.map_cons, read, List.filter_cons_of_pos (finds.kept _), List.filter_nil]
    rfl
  · have matched : p.matchesOn place = p.matchesOn (place.past statement.chars rest) := by
      refine matchesOn_past rfl fun before back split some => ?_
      cases before with
      | nil =>
        obtain rfl : statement.chars = back := split
        exact skips.skipped rfl
      | cons c before => exact within split (List.cons_ne_nil c before) some
    rw [matched, List.filter_cons_of_neg (by simp [skips.dropped]), List.filter_nil]
    rfl

/-- Reading on over statements one after another finds those that are kept. -/
theorem Finds.run (finds : Finds p bind reexport sideEffect keep) (statements : List Statement)
    {text front : List Char} (split : text = front ++ statements.flatMap Statement.chars)
    (starts : ∀ c ∈ front.getLast?, c = '\n') :
    (p.matchesOn ⟨front.getLast?, statements.flatMap Statement.chars, Text.byteLength front⟩).map
        (readMatch text bind reexport sideEffect) =
      (Statement.readAll (1 + front.count '\n') statements).filter keep := by
  induction statements generalizing front with
  | nil =>
    obtain ⟨word, keyword, begins⟩ := finds.begins
    have none : p.matchAt? ⟨front.getLast?, [], Text.byteLength front⟩ = none :=
      begins.matchAt?_eq_none fun _ => keyword.plain.2.symm
    simp [matchesOn, matchesFrom, none, Statement.readAll]
  | cons statement statements ih =>
    rw [List.flatMap_cons] at split ⊢
    have later : text = front ++ statement.chars ++ statements.flatMap Statement.chars := by
      rw [split, List.append_assoc]
    have feed : ∀ c ∈ (front ++ statement.chars).getLast?, c = '\n' := by
      rw [statement.chars_eq_body, ← List.append_assoc, List.getLast?_concat]
      rintro c ⟨⟩
      rfl
    rw [finds.step statement split starts, ih later feed, List.count_append, ← Nat.add_assoc,
      ← List.filter_append]
    rfl

theorem Finds.map_allMatches (finds : Finds p bind reexport sideEffect keep)
    (statements : List Statement) :
    (p.allMatches (statements.flatMap Statement.chars)).map
        (readMatch (statements.flatMap Statement.chars) bind reexport sideEffect) =
      (Statement.readAll 1 statements).filter keep :=
  @Finds.run p bind reexport sideEffect keep finds statements _ [] rfl (by simp)

end

namespace Statement

theorem le_of_mem_readAll {line : Nat} {statements : List Statement} {read : ImportStatement}
    (mem : read ∈ readAll line statements) : line ≤ read.startLine := by
  induction statements generalizing line with
  | nil => exact absurd mem List.not_mem_nil
  | cons statement statements ih =>
    rcases List.mem_cons.mp mem with rfl | later
    · cases statement <;> exact Nat.le_refl line
    · exact Nat.le_trans (Nat.le_add_right line _) (ih later)

/-- Each statement begins on a later line than the one before it. -/
theorem pairwise_readAll (line : Nat) (statements : List Statement) :
    (readAll line statements).Pairwise fun one other => one.startLine < other.startLine := by
  induction statements generalizing line with
  | nil => exact List.Pairwise.nil
  | cons statement statements ih =>
    refine List.pairwise_cons.mpr ⟨fun read later => ?_, ih _⟩
    have start : (statement.read line).startLine = line := by cases statement <;> rfl
    have feed : 0 < statement.chars.count '\n' := by
      simp [statement.chars_eq_body]
    have behind := le_of_mem_readAll later
    omega

end Statement

/-- Statements that are written one after another are read as they were written, in their order and
with their lines. -/
theorem parseAll_written (statements : List Statement) :
    parseAll (statements.flatMap Statement.chars) = Statement.readAll 1 statements := by
  let all := Statement.readAll 1 statements
  have perm : (all.filter (fun statement => !statement.sideEffect && !statement.reexport) ++
      all.filter (fun statement => statement.sideEffect && !statement.reexport) ++
        all.filter (·.reexport)).Perm all := by
    let imports := all.filter fun statement => !statement.reexport
    have kinds : (imports.filter (!·.sideEffect) ++ imports.filter (·.sideEffect)).Perm imports :=
      List.perm_append_comm.trans (List.filter_append_perm (·.sideEffect) imports)
    have whole : (imports ++ all.filter (·.reexport)).Perm all :=
      List.perm_append_comm.trans (List.filter_append_perm (·.reexport) all)
    simp only [imports, List.filter_filter] at kinds
    exact (kinds.append_right _).trans whole
  rw [← finds_importFrom.map_allMatches, ← finds_importOnly.map_allMatches,
    ← finds_exportFrom.map_allMatches] at perm
  exact Ascending.sortByKey_eq_of_perm perm (Statement.pairwise_readAll 1 statements)

/-- How a default name and entries of one line each are written. -/
example : Statement.chars (.importFrom false
    (.both ⟨"React", by decide, by decide⟩ (.named ⟨⟨⟨"fromState", by decide, by decide⟩, none, true⟩,
      [⟨⟨"typeA", by decide, by decide⟩, some ⟨"asB", by decide, by decide⟩, false⟩], .perLine 2⟩))
    ⟨"./react", '\'', '\'', by decide, by decide, by decide⟩) =
      "import React, \x7b\n  type fromState,\n  typeA as asB,\n\x7d from './react';\n".toList := by
  decide

end ImportSyntax

end ChangeImpact
