import ChangeImpact.Proofs.Pattern.Place
import ChangeImpact.Proofs.Text.LineNumbers
import ChangeImpact.Source.Import

/-!
# The lines of import statements

An import statement begins no later than it ends, and both of these are lines of the text in which
it was found.
-/

namespace ChangeImpact

namespace Text

theorem byteLength_leadingBlanks_le {c : Char} (ink : isBlank c = false) (front rest : List Char) :
    byteLength (leadingBlanks (front ++ c :: rest)) ≤ byteLength front := by
  induction front with
  | nil => simp [leadingBlanks, ink, byteLength]
  | cons d front ih =>
    cases blank : isBlank d with
    | false => simp [leadingBlanks, blank, byteLength]
    | true =>
      rw [List.cons_append, leadingBlanks, List.takeWhile_cons_of_pos blank, byteLength, byteLength]
      exact Nat.add_le_add_left ih _

end Text

/-! ## Where the specifier is read -/

namespace ImportStatement

open Pattern

theorem isBlank_of_isQuote {c : Char} (quote : isQuote c = true) : Text.isBlank c = false := by
  simp only [isQuote, Bool.or_eq_true, beq_iff_eq] at quote
  rcases quote with rfl | rfl <;> rfl

/-- The specifier of a quoted specifier is the latest part; it lies between two quotes and is not
empty. -/
theorem mem_results_quotedSpecifier {trace next : Trace}
    (mem : next ∈ quotedSpecifier.results trace) :
    ∃ opening specifier closing part, next.captures = part :: trace.captures ∧ part.index = 3 ∧
      isQuote opening = true ∧ isQuote closing = true ∧ specifier ≠ [] ∧
      trace.place.Reads [opening] part.start ∧ part.start.Reads specifier part.stop ∧
      part.stop.Reads [closing] next.place := by
  obtain ⟨opened, one, mem⟩ := List.mem_flatMap.mp mem
  obtain ⟨named, two, last⟩ := List.mem_flatMap.mp mem
  obtain ⟨opening, rest, text, opens, rfl⟩ := mem_results_one one
  obtain ⟨inner, within, rfl⟩ := List.mem_map.mp two
  obtain ⟨first, head, tail⟩ := List.mem_flatMap.mp within
  obtain ⟨c, after, text', -, rfl⟩ := mem_results_one head
  obtain ⟨place, reached, rfl⟩ := List.mem_map.mp tail
  obtain ⟨closing, behind, text'', closes, rfl⟩ := mem_results_one last
  obtain ⟨read, -, reads⟩ := Cursor.reads_of_mem_run (List.mem_reverse.mp reached)
  have begun : Cursor.Reads ⟨some opening, rest, trace.place.offset + opening.utf8Size⟩ [c]
      ⟨some c, after, trace.place.offset + opening.utf8Size + c.utf8Size⟩ :=
    ⟨text', rfl, rfl⟩
  exact ⟨opening, c :: read, closing, _, rfl, rfl, opens, closes, List.cons_ne_nil c read,
    ⟨text, rfl, rfl⟩, begun.trans reads, ⟨text'', rfl, rfl⟩⟩

def EndsInSpecifier (p : Pattern) : Prop :=
  ∃ front, p = all (front ++ [quotedSpecifier])

theorem endsInSpecifier_importFrom : EndsInSpecifier importFrom :=
  ⟨[indentedLine, lit "import", blanks1, typeKeyword, _, blanks, lit "from", blanks], rfl⟩

theorem endsInSpecifier_importOnly : EndsInSpecifier importOnly :=
  ⟨[indentedLine, lit "import", blanks], rfl⟩

theorem endsInSpecifier_exportFrom : EndsInSpecifier exportFrom :=
  ⟨[indentedLine, lit "export", blanks1, typeKeyword, _, blanks, lit "from", blanks], rfl⟩

/-- A match that ends in a specifier has it behind its first character that is not blank. -/
theorem specifier_of_finds {p : Pattern} (ends : EndsInSpecifier p) {place : Cursor} {found : Match}
    (finds : p.Finds place found) :
    ∃ part, found.capture? 3 = some part ∧ found.inkOffset ≤ part.start.offset ∧
      part.start.offset < place.total := by
  obtain ⟨front, rfl⟩ := ends
  obtain ⟨middle, among, last⟩ := mem_results_all_append finds.way
  obtain ⟨quote, specifier, closing, part, captures, index, holds, -, nonempty, opens, inner,
    closes⟩ := mem_results_quotedSpecifier last
  obtain ⟨read, before⟩ := leads_of_mem_results among
  obtain ⟨after, behind⟩ : part.start.Leads found.stop := ⟨_, inner.trans closes⟩
  have whole : found.start.Reads (read ++ quote :: after) found.stop := by
    simpa using (before.trans opens).trans behind
  have upTo : found.start.Reads (read ++ [quote]) part.start := before.trans opens
  have captured : found.captures = part :: middle.captures := captures
  refine ⟨part, by simp [Match.capture?, captured, index], ?_, ?_⟩
  · have blanks := Text.byteLength_leadingBlanks_le (isBlank_of_isQuote holds) read after
    have offset := upTo.offset
    rw [Text.byteLength_append] at offset
    rw [Match.inkOffset, Match.text, whole.textTo]
    omega
  · have inside : part.start.total = place.total :=
      (finds.start.trans ⟨_, upTo⟩).total_eq
    have remains : 0 < Text.byteLength part.start.rest := by
      obtain ⟨c, rest, rfl⟩ := List.exists_cons_of_ne_nil nonempty
      rw [inner.rest]
      exact Nat.lt_of_lt_of_le (Char.utf8Size_pos c) (Nat.le_add_right _ _)
    rw [← inside, Cursor.total]
    omega

/-- The lines of a statement are lines of the text. -/
structure LiesIn (statement : ImportStatement) (text : List Char) : Prop where
  start_pos : 1 ≤ statement.startLine
  start_le : statement.startLine ≤ statement.endLine
  end_le : statement.endLine ≤ (Text.linesChars text).length

theorem liesIn_ofMatch {p : Pattern} (ends : EndsInSpecifier p) {text : List Char} {found : Match}
    (mem : found ∈ p.allMatches text) (clause : ImportClause) (reexport sideEffect : Bool) :
    (ofMatch (Text.lineStarts text) found clause reexport sideEffect).LiesIn text := by
  obtain ⟨part, captured, behind, inside⟩ := specifier_of_finds ends (finds_of_mem_allMatches mem)
  have size : Cursor.total ⟨none, text, 0⟩ = Text.byteLength text := Nat.zero_add _
  rw [size] at inside
  constructor
  · exact Text.lineOf_pos text _
  · simpa [ofMatch, captured] using Text.lineOf_mono (Text.lineStarts text) behind
  · simpa [ofMatch, captured] using Text.lineOf_le_length inside

theorem liesIn_of_mem_parseAll {statement : ImportStatement} {text : List Char}
    (mem : statement ∈ parseAll text) : statement.LiesIn text := by
  rcases List.mem_append.mp ((Ascending.perm_sortBy _ _).mem_iff.mp mem) with mem | mem
  · rcases List.mem_append.mp mem with mem | mem
    · obtain ⟨found, listed, rfl⟩ := List.mem_map.mp mem
      exact liesIn_ofMatch endsInSpecifier_importFrom listed _ _ _
    · obtain ⟨found, listed, rfl⟩ := List.mem_map.mp mem
      exact liesIn_ofMatch endsInSpecifier_importOnly listed _ _ _
  · obtain ⟨found, listed, rfl⟩ := List.mem_map.mp mem
    exact liesIn_ofMatch endsInSpecifier_exportFrom listed _ _ _

end ImportStatement

end ChangeImpact
