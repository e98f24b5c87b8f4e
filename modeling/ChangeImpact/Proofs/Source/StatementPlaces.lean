import ChangeImpact.Proofs.Source.StatementSpans

/-!
# The lines that statements name

The line numbers of an import statement are those of the bytes at which its keyword and its
specifier begin. So the lines with these numbers, among the lines that are read from the text, have
the keyword and the specifier in them.
-/

namespace ChangeImpact.ImportStatement

open Text (LineHolds byteLength)

variable {span : Span} {text : List Char} {statement : ImportStatement}

/-- What of a specifier is before its first line feed: all of it, if it has none. -/
def firstLine (specifier : List Char) : List Char :=
  specifier.takeWhile (· != '\n')

namespace Span

def keywordOffset (span : Span) : Nat :=
  byteLength (span.front ++ span.indent)

/-- The byte offset of the specifier, which is behind a quote. -/
def specifierOffset (span : Span) : Nat :=
  byteLength (span.front ++ span.read) + 1

/-- The lines that a statement names hold its keyword and its specifier. A specifier that has line
feeds goes on from the named line, one line further behind each of them. -/
structure LinesHold (span : Span) (text : List Char) (statement : ImportStatement) : Prop where
  keyword : LineHolds text statement.startLine span.keywordOffset
    (span.keywordOffset + byteLength span.keyword.toList)
  specifier : LineHolds text statement.endLine span.specifierOffset
    (span.specifierOffset + byteLength (firstLine statement.specifier.toList))
  onward : ∀ read c, read ++ [c] <+: statement.specifier.toList →
    LineHolds text (statement.endLine + read.count '\n') (span.specifierOffset + byteLength read)
      (span.specifierOffset + byteLength (read ++ [c]))

theorem Covers.lineHolds_keyword (covers : span.Covers text statement)
    (word : span.keyword = statement.keyword) : LineHolds text statement.startLine
      span.keywordOffset (span.keywordOffset + byteLength span.keyword.toList) := by
  obtain ⟨opening, closing, rest, -, -, text_eq⟩ := covers.text_eq
  have letters : span.keyword.toList ≠ [] ∧ '\n' ∉ span.keyword.toList.dropLast := by
    rw [word]
    rcases statement.keyword_cases with same | same <;> rw [same] <;> decide
  have noFeed : span.indent.count '\n' = 0 :=
    List.count_eq_zero.mpr fun feed => absurd (covers.indent _ feed) (by decide)
  have holds := Text.lineHolds_append (span.front ++ span.indent) letters.1 letters.2
    (span.inner ++ opening :: (statement.specifier.toList ++ closing :: rest))
  rw [List.count_append, noFeed, Nat.add_zero, ← covers.startLine_eq] at holds
  rw [text_eq, Span.read, keywordOffset]
  simpa using holds

/-- Behind some part of the specifier, what has no line feed but perhaps at its end is in one
line. -/
theorem Covers.lineHolds_behind (covers : span.Covers text statement) {opening : Char}
    {read word more : List Char} (isQuote : isQuote opening = true)
    (text_eq : text = span.front ++ span.read ++ opening :: (read ++ (word ++ more)))
    (nonempty : word ≠ []) (noFeed : '\n' ∉ word.dropLast) :
    LineHolds text (statement.endLine + read.count '\n') (span.specifierOffset + byteLength read)
      (span.specifierOffset + byteLength read + byteLength word) := by
  have single : [opening].count '\n' = 0 ∧ byteLength [opening] = 1 := by
    simp only [ImportStatement.isQuote, Bool.or_eq_true, beq_iff_eq] at isQuote
    rcases isQuote with rfl | rfl <;> decide
  have holds := Text.lineHolds_append (span.front ++ span.read ++ [opening] ++ read) nonempty noFeed
    more
  rw [List.count_append, List.count_append, single.1, Nat.add_zero, ← Nat.add_assoc,
    ← covers.endLine_eq, Text.byteLength_append, Text.byteLength_append, single.2] at holds
  rw [text_eq, specifierOffset]
  simpa using holds

theorem Covers.linesHold (covers : span.Covers text statement)
    (word : span.keyword = statement.keyword) : span.LinesHold text statement := by
  obtain ⟨opening, closing, rest, isQuote, -, text_eq⟩ := covers.text_eq
  refine ⟨covers.lineHolds_keyword word, ?_, fun read c begins => ?_⟩
  · let first := firstLine statement.specifier.toList
    -- The line goes on behind the first line of the specifier, with its line feed or its quote.
    obtain ⟨next, more, behind⟩ : ∃ next more,
        statement.specifier.toList.dropWhile (· != '\n') ++ closing :: rest = next :: more :=
      List.exists_cons_of_ne_nil (by simp)
    have shape : statement.specifier.toList ++ closing :: rest = first ++ [next] ++ more := by
      rw [← List.takeWhile_append_dropWhile (p := (· != '\n')) (l := statement.specifier.toList),
        List.append_assoc, behind]
      simp [first, firstLine]
    have noFeed : '\n' ∉ (first ++ [next]).dropLast := by
      rw [List.dropLast_concat]
      intro feed
      simpa using List.all_eq_true.mp List.all_takeWhile _ feed
    have split : text = span.front ++ span.read ++ opening :: ([] ++ (first ++ [next] ++ more)) := by
      rw [text_eq, shape, List.nil_append]
    have holds := covers.lineHolds_behind isQuote split (by simp) noFeed
    rw [Text.byteLength_append] at holds
    exact holds.mono (Nat.le_refl _) (by simp [byteLength, first])
  · obtain ⟨more, shape⟩ := begins
    have split : text = span.front ++ span.read ++
        opening :: (read ++ ([c] ++ (more ++ closing :: rest))) := by
      rw [text_eq, ← shape]
      simp
    have holds := covers.lineHolds_behind isQuote split (List.cons_ne_nil c []) List.not_mem_nil
    rwa [Nat.add_assoc, ← Text.byteLength_append] at holds

end Span

/-- The number of a line is one more than the line feeds before a byte, and the line with this
number, and no other one, has the byte in it, its ending counted in. So the lines that a statement
names are those that hold its keyword and its specifier. -/
theorem line_numbers_exact (text : List Char) :
    (∀ offset, Text.lineOf (Text.lineStarts text) offset =
      1 + ((Text.bytes text).take offset).count '\n'.toUInt8) ∧
    ((Text.wholeLines text).flatten = text ∧
      Text.linesChars text = (Text.wholeLines text).map Text.withoutEnding) ∧
    (∀ offset number, offset < byteLength text → (LineHolds text number offset (offset + 1) ↔
      number = Text.lineOf (Text.lineStarts text) offset)) ∧
    ∀ statement ∈ parseAll text, ∃ span : Span, span.keyword = statement.keyword ∧
      span.Covers text statement ∧ span.LinesHold text statement := by
  refine ⟨Text.lineOf_eq_count text, ⟨Text.flatten_wholeLines text, Text.linesChars_eq_map text⟩,
    fun offset number inside => Text.lineHolds_iff inside, fun statement mem => ?_⟩
  obtain ⟨span, word, covers⟩ := exists_span_of_mem_parseAll mem
  exact ⟨span, word, covers, covers.linesHold word⟩

end ChangeImpact.ImportStatement
