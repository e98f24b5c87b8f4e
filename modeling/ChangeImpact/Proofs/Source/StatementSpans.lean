import ChangeImpact.Proofs.Ascending
import ChangeImpact.Proofs.Source.StatementLines
import ChangeImpact.Proofs.Text.Pieces

/-!
# Statements that share no line

A statement covers the lines from its keyword to its specifier. Imports and imports for effects are
told apart by the last word before the quote, so that neither of them begins within the other, and
the matches of one pattern do not overlap. What is bound by an import may run on over the keyword of
a re-export, though, and what stands in the braces of a re-export over the keyword of an import.
-/

namespace ChangeImpact

namespace Text

def lastInk (text : List Char) : Option Char :=
  text.reverse.find? fun c => !isBlank c

theorem lastInk_append (front back : List Char) :
    lastInk (front ++ back) = (lastInk back).or (lastInk front) := by
  rw [lastInk, List.reverse_append, List.find?_append]
  rfl

theorem lastInk_of_blank {text : List Char} (blank : ∀ c ∈ text, isBlank c = true) :
    lastInk text = none :=
  List.find?_eq_none.mpr fun c mem => by simp [blank c (List.mem_reverse.mp mem)]

theorem isBlank_of_isIndent {c : Char} (indent : isIndent c = true) : isBlank c = true := by
  simp only [isIndent, Bool.or_eq_true, beq_iff_eq] at indent
  rcases indent with rfl | rfl <;> rfl

/-- A text without a character of some kind ends where the first one stands. -/
theorem append_cons_inj {p : Char → Bool} {front front' rest rest' : List Char} {c c' : Char}
    (same : front ++ c :: rest = front' ++ c' :: rest') (bare : ∀ d ∈ front, p d = false)
    (bare' : ∀ d ∈ front', p d = false) (here : p c = true) (here' : p c' = true) :
    front = front' := by
  have cut : ∀ {front rest : List Char} {c}, (∀ d ∈ front, p d = false) → p c = true →
      (front ++ c :: rest).takeWhile (fun d => !p d) = front := by
    intro front rest c bare here
    exact takeWhile_append_of_stops (by simpa using bare) (by simpa using here)
  rw [← @cut front rest c bare here, same, cut bare' here']

theorem prefix_of_byteLength_le {front front' text : List Char} (one : front <+: text)
    (other : front' <+: text) (shorter : byteLength front ≤ byteLength front') :
    front <+: front' := by
  rcases List.prefix_or_prefix_of_prefix one other with before | ⟨more, rfl⟩
  · exact before
  · cases more with
    | nil => simp
    | cons c more =>
      have size : 0 < c.utf8Size := Char.utf8Size_pos c
      rw [byteLength_append, byteLength] at shorter
      omega

end Text

namespace ImportStatement

open Pattern

/-! ## Where a statement stands -/

/-- Where a statement stands in a text: what is in front of it, its indentation, its keyword, and
what follows up to the quote of the specifier. -/
structure Span where
  front : List Char
  indent : List Char
  keyword : String
  inner : List Char

namespace Span

def read (span : Span) : List Char :=
  span.indent ++ span.keyword.toList ++ span.inner

/-- A statement of a text stands at the span: behind whole lines, and with its specifier between
quotes after it. -/
structure Covers (span : Span) (text : List Char) (statement : ImportStatement) : Prop where
  begins : ∀ c ∈ span.front.getLast?, c = '\n'
  indent : ∀ c ∈ span.indent, Text.isIndent c = true
  text_eq : ∃ opening closing rest, isQuote opening = true ∧ isQuote closing = true ∧
    text = span.front ++ span.read ++ opening :: (statement.specifier.toList ++ closing :: rest)
  startLine_eq : statement.startLine = 1 + span.front.count '\n'
  endLine_eq : statement.endLine = 1 + (span.front ++ span.read).count '\n'

end Span

theorem mem_results_indentedLine {trace next : Trace} (mem : next ∈ indentedLine.results trace) :
    (∀ c ∈ trace.place.before, c = '\n') ∧
      ∃ indent, (∀ c ∈ indent, Text.isIndent c = true) ∧ trace.place.Reads indent next.place := by
  obtain ⟨begun, anchored, spaced⟩ := List.mem_flatMap.mp mem
  obtain ⟨indent, spelled, reads⟩ := spells_of_mem_results spaced
  unfold results at anchored
  split at anchored
  · next holds =>
    obtain rfl := List.mem_singleton.mp anchored
    refine ⟨fun c before => ?_, indent, spelled, reads⟩
    simpa [Anchor.holds, Option.mem_def.mp before] using holds
  · simp at anchored

/-- A match of a keyword and a specifier stands at a span. -/
theorem exists_span (keyword : String) (middle : List Pattern) {text : List Char} {found : Match}
    (inky : keyword.toList.head?.any (fun c => !Text.isBlank c) = true)
    (mem : found ∈
      (all (indentedLine :: lit keyword :: (middle ++ [quotedSpecifier]))).allMatches text) :
    ∃ span : Span, span.keyword = keyword ∧ (all middle).Spells span.inner ∧
      (∀ clause reexport sideEffect, span.Covers text
        (ofMatch (Text.lineStarts text) found clause reexport sideEffect)) ∧
      found.start.offset = Text.byteLength span.front ∧
      Text.byteLength (span.front ++ span.read) < found.stop.offset := by
  have finds := finds_of_mem_allMatches mem
  obtain ⟨front, reached⟩ := finds.start
  have way : ⟨found.stop, found.captures⟩ ∈
      (all ((indentedLine :: lit keyword :: middle) ++ [quotedSpecifier])).results
        ⟨found.start, []⟩ := finds.way
  obtain ⟨upTo, among, last⟩ := mem_results_all_append way
  obtain ⟨quote, chars, closing, part, captures, index, isQuote, isQuote', -, opens, inside,
    ends⟩ := mem_results_quotedSpecifier last
  rw [results_all_cons] at among
  obtain ⟨indented, one, two⟩ := List.mem_flatMap.mp among
  obtain ⟨begins, indent, indents, spaced⟩ := mem_results_indentedLine one
  obtain ⟨read, spelled, reads⟩ := spells_of_mem_results two
  obtain ⟨word, inner, rfl, isWord, spells⟩ := spells_all_cons.mp spelled
  obtain rfl := spells_lit.mp isWord
  let span : Span := ⟨front, indent, keyword, inner⟩
  have body : found.start.Reads span.read upTo.place := by
    simpa [span, Span.read] using spaced.trans reads
  have whole : Cursor.Reads ⟨none, text, 0⟩ (front ++ span.read ++ [quote]) part.start :=
    (reached.trans body).trans opens
  have start : found.start.offset = Text.byteLength front := by
    simpa using reached.offset
  have specifier : part.start.offset = Text.byteLength (front ++ span.read ++ [quote]) := by
    simpa using whole.offset
  have text_eq : text = front ++ span.read ++ quote :: (chars ++ closing :: found.stop.rest) := by
    simpa [inside.rest, ends.rest] using whole.rest
  have captured : found.capture? 3 = some part := by
    have listed : found.captures = part :: upTo.captures := captures
    simp [Match.capture?, listed, index]
  have specified : found.part 3 = chars := by
    simp [Match.part, Match.part?, captured, inside.textTo]
  -- The indentation ends at the keyword, so the first ink of the match is the keyword.
  have ink : found.inkOffset = Text.byteLength (front ++ indent) := by
    obtain ⟨behind, closes⟩ : part.start.Leads found.stop := ⟨_, inside.trans ends⟩
    have read : found.text = indent ++ (keyword.toList ++ (inner ++ quote :: behind)) := by
      rw [Match.text, ((body.trans opens).trans closes).textTo]
      simp [span, Span.read]
    have blanks : Text.leadingBlanks found.text = indent := by
      rw [read]
      refine Text.takeWhile_append_of_stops (fun c mem => Text.isBlank_of_isIndent (indents c mem)) ?_
      cases letters : keyword.toList with
      | nil => simp [letters] at inky
      | cons c rest =>
        rintro d ⟨⟩
        simpa [letters] using inky
    rw [Match.inkOffset, blanks, start, Text.byteLength_append]
  refine ⟨span, rfl, spells, fun clause reexport sideEffect => ?_, start, ?_⟩
  · have noFeed : ∀ {chars : List Char}, (∀ c ∈ chars, Text.isIndent c = true) →
        chars.count '\n' = 0 := by
      intro chars indents
      refine List.count_eq_zero.mpr fun feed => ?_
      exact absurd (indents _ feed) (by decide)
    have quoted : text = front ++ span.read ++ quote :: ((ofMatch (Text.lineStarts text) found clause
        reexport sideEffect).specifier.toList ++ closing :: found.stop.rest) := by
      rw [ofMatch, specified, String.toList_ofList, text_eq]
    refine ⟨?_, indents, ⟨quote, closing, _, isQuote, isQuote', quoted⟩, ?_, ?_⟩
    · simpa [reached.before] using begins
    · have begins : front ++ indent <+: text :=
        ⟨keyword.toList ++ inner ++ quote :: (chars ++ closing :: found.stop.rest), by
          simp [text_eq, span, Span.read]⟩
      rw [ofMatch, ink, Text.lineOf_byteLength begins, List.count_append, noFeed indents]
      rfl
    · have begins : front ++ span.read ++ [quote] <+: text :=
        ⟨chars ++ closing :: found.stop.rest, by simp [text_eq]⟩
      have noFeed : [quote].count '\n' = 0 := by
        refine List.count_eq_zero.mpr fun feed => ?_
        obtain rfl := List.mem_singleton.mp feed
        exact absurd isQuote (by decide)
      have count : (front ++ span.read ++ [quote]).count '\n' = (front ++ span.read).count '\n' := by
        rw [List.count_append, noFeed, Nat.add_zero]
      simp only [ofMatch, captured, Option.map_some, Option.getD_some, specifier]
      rw [Text.lineOf_byteLength begins, count]
  · have further : part.start.offset ≤ found.stop.offset :=
      Cursor.Leads.offset_le ⟨_, inside.trans ends⟩
    rw [specifier, Text.byteLength_append] at further
    have size : 0 < Text.byteLength [quote] := Char.utf8Size_pos quote
    show Text.byteLength (front ++ span.read) < found.stop.offset
    omega

/-! ## Statements apart -/

/-- No line belongs to both statements. -/
def Apart (one other : ImportStatement) : Prop :=
  one.endLine < other.startLine ∨ other.endLine < one.startLine

instance (one other : ImportStatement) : Decidable (one.Apart other) :=
  inferInstanceAs (Decidable (_ ∨ _))

theorem Apart.symm {one other : ImportStatement} : one.Apart other → other.Apart one :=
  Or.symm

namespace Span

variable {first second : Span} {text : List Char} {one other : ImportStatement}

theorem Covers.begins_text (covers : first.Covers text one) : first.front ++ first.read <+: text := by
  obtain ⟨quote, closing, rest, -, -, text_eq⟩ := covers.text_eq
  exact ⟨_, text_eq.symm⟩

theorem Covers.front_begins_text (covers : first.Covers text one) : first.front <+: text :=
  (List.prefix_append _ _).trans covers.begins_text

/-- Behind the text of a statement begins no statement on one of its lines. -/
theorem Covers.lt_of_prefix (covers : first.Covers text one) (covers' : second.Covers text other)
    (behind : first.front ++ first.read <+: second.front)
    (differ : first.front ++ first.read ≠ second.front) : one.endLine < other.startLine := by
  obtain ⟨more, split⟩ := behind
  have feed : '\n' ∈ more := by
    obtain ⟨front, c, rfl⟩ := List.eq_nil_or_concat more |>.resolve_left fun none => by
      simp [none] at split
      exact differ split
    have last : second.front.getLast? = some c := by simp [← split]
    rw [← covers'.begins c last]
    simp
  have some := List.count_pos_iff.mpr feed
  have total : second.front.count '\n' =
      (first.front ++ first.read).count '\n' + more.count '\n' := by
    rw [← split, ← List.count_append]
  rw [covers.endLine_eq, covers'.startLine_eq]
  omega

/-- Of two statements, the later one begins on a line behind the earlier one or within its text. -/
theorem Covers.lt_or_within (covers : first.Covers text one) (covers' : second.Covers text other) :
    one.endLine < other.startLine ∨ second.front <+: first.front ++ first.read := by
  rcases List.prefix_or_prefix_of_prefix covers.begins_text covers'.front_begins_text with
    behind | within
  · by_cases same : first.front ++ first.read = second.front
    · exact .inr (same ▸ List.prefix_refl _)
    · exact .inl (covers.lt_of_prefix covers' behind same)
  · exact .inr within

/-- Without a quote in the text of either, the earlier statement ends as the later one does. -/
theorem Covers.read_eq_of_within (covers : first.Covers text one)
    (covers' : second.Covers text other) (before : first.front <+: second.front)
    (within : second.front <+: first.front ++ first.read)
    (bare : ∀ c ∈ first.read, isQuote c = false) (bare' : ∀ c ∈ second.read, isQuote c = false) :
    ∃ skipped, first.read = skipped ++ second.read := by
  obtain ⟨skipped, front⟩ := before
  obtain ⟨left, split⟩ := within
  have read : first.read = skipped ++ left := by
    rw [← front, List.append_assoc] at split
    exact (List.append_cancel_left split).symm
  obtain ⟨quote, closing, rest, isQuote, -, text_eq⟩ := covers.text_eq
  obtain ⟨quote', closing', rest', isQuote', -, text_eq'⟩ := covers'.text_eq
  have same : left ++ quote :: (one.specifier.toList ++ closing :: rest) =
      second.read ++ quote' :: (other.specifier.toList ++ closing' :: rest') := by
    refine (List.append_right_inj second.front).mp ?_
    calc second.front ++ (left ++ quote :: (one.specifier.toList ++ closing :: rest))
      _ = text := by rw [text_eq, ← split, List.append_assoc]
      _ = second.front ++ (second.read ++ quote' :: (other.specifier.toList ++ closing' :: rest')) := by
          rw [text_eq', List.append_assoc]
  have cut := Text.append_cons_inj same
    (fun c mem => bare c (by rw [read]; exact List.mem_append_right _ mem)) bare' isQuote isQuote'
  exact ⟨skipped, by rw [read, cut]⟩

/-- Statements without a quote before their specifiers share no line if what they read ends
differently. -/
theorem Covers.apart_of_lastInk {c d : Char} (covers : first.Covers text one)
    (covers' : second.Covers text other) (bare : ∀ c ∈ first.read, isQuote c = false)
    (bare' : ∀ c ∈ second.read, isQuote c = false) (ink : Text.lastInk first.read = some c)
    (ink' : Text.lastInk second.read = some d) (differ : c ≠ d) : one.Apart other := by
  have ends : ∀ {front back : List Char} {c d}, Text.lastInk front = some c →
      Text.lastInk back = some d → (∃ skipped, front = skipped ++ back) → c = d := by
    rintro _ back c d ink ink' ⟨skipped, rfl⟩
    rw [Text.lastInk_append, ink', Option.some_or] at ink
    exact (Option.some.inj ink).symm
  rcases List.prefix_or_prefix_of_prefix covers.front_begins_text covers'.front_begins_text with
    before | before
  · rcases covers.lt_or_within covers' with apart | within
    · exact .inl apart
    · exact absurd (ends ink ink' (covers.read_eq_of_within covers' before within bare bare')) differ
  · rcases covers'.lt_or_within covers with apart | within
    · exact .inr apart
    · exact absurd (ends ink' ink (covers'.read_eq_of_within covers before within bare' bare))
        differ.symm

end Span

/-! ## What imports read -/

theorem isQuote_of_isBlank {c : Char} (blank : Text.isBlank c = true) : isQuote c = false := by
  cases quote : isQuote c with
  | false => rfl
  | true => simp [isBlank_of_isQuote quote] at blank

theorem spells_blanks1 {read : List Char} (spells : blanks1.Spells read) :
    ∀ c ∈ read, Text.isBlank c = true := by
  obtain ⟨front, back, rfl, ⟨c, first, rfl⟩, rest⟩ := spells
  exact List.forall_mem_cons.mpr ⟨first, rest⟩

theorem spells_typeKeyword {read : List Char} (spells : typeKeyword.Spells read) :
    read = [] ∨ ∃ space, (∀ c ∈ space, Text.isBlank c = true) ∧ read = "type".toList ++ space := by
  rcases spells with keyword | none
  · obtain ⟨word, space, rfl, isWord, isSpace⟩ := spells_all_cons.mp keyword
    obtain rfl := spells_lit.mp isWord
    exact .inr ⟨space, spells_blanks1 isSpace, rfl⟩
  · exact .inl none

theorem bare_of_blank {read : List Char} (blank : ∀ c ∈ read, Text.isBlank c = true) :
    ∀ c ∈ read, isQuote c = false :=
  fun c mem => isQuote_of_isBlank (blank c mem)

def fromMiddle : List Pattern :=
  [blanks1, typeKeyword, .group 2 (.few fun c => !(isQuote c || c == ';')), blanks, lit "from",
    blanks]

def exportMiddle : List Pattern :=
  [blanks1, typeKeyword,
    .group 2 (.alt (.all [.char '*', .opt (.all [blanks1, lit "as", blanks1, .identifier])])
      (.all [.char '{', .many (· != '}'), .char '}'])),
    blanks, lit "from", blanks]

theorem spells_fromMiddle {read : List Char} (spells : (all fromMiddle).Spells read) :
    (∀ c ∈ read, isQuote c = false) ∧ Text.lastInk read = some 'm' := by
  obtain ⟨space, _, rfl, isSpace, spells⟩ := spells_all_cons.mp spells
  obtain ⟨typeWord, _, rfl, isType, spells⟩ := spells_all_cons.mp spells
  obtain ⟨bound, _, rfl, isBound, spells⟩ := spells_all_cons.mp spells
  obtain ⟨gap, _, rfl, isGap, spells⟩ := spells_all_cons.mp spells
  obtain ⟨word, last, rfl, isWord, isLast⟩ := spells_all_cons.mp spells
  obtain rfl := spells_lit.mp isWord
  have typeBare : ∀ c ∈ typeWord, isQuote c = false := by
    rcases spells_typeKeyword isType with rfl | ⟨after, isAfter, rfl⟩
    · simp
    · have bare := bare_of_blank isAfter
      have keyword : ∀ c ∈ "type".toList, isQuote c = false := by decide
      exact List.forall_mem_append.mpr ⟨keyword, bare⟩
  have boundBare : ∀ c ∈ bound, isQuote c = false := by
    intro c mem
    have holds := isBound c mem
    simp only [Bool.not_eq_true', Bool.or_eq_false_iff] at holds
    exact holds.1
  have wordBare : ∀ c ∈ "from".toList, isQuote c = false := by decide
  constructor
  · simp only [List.mem_append]
    rintro c (mem | mem | mem | mem | mem | mem)
    · exact bare_of_blank (spells_blanks1 isSpace) c mem
    · exact typeBare c mem
    · exact boundBare c mem
    · exact bare_of_blank isGap c mem
    · exact wordBare c mem
    · exact bare_of_blank isLast c mem
  · have none := Text.lastInk_of_blank isLast
    have word : Text.lastInk "from".toList = some 'm' := by decide
    simp only [Text.lastInk_append, none, word, Option.none_or, Option.some_or]

theorem Span.bare_read {span : Span} (keyword : span.keyword = "import")
    (indent : ∀ c ∈ span.indent, Text.isIndent c = true)
    (inner : ∀ c ∈ span.inner, isQuote c = false) : ∀ c ∈ span.read, isQuote c = false := by
  have word : ∀ c ∈ "import".toList, isQuote c = false := by decide
  rw [Span.read, keyword]
  simp only [List.mem_append]
  rintro c ((mem | mem) | mem)
  · exact isQuote_of_isBlank (Text.isBlank_of_isIndent (indent c mem))
  · exact word c mem
  · exact inner c mem

/-- An import and an import for effects share no line. -/
theorem apart_of_import_of_effect {text : List Char} {first second : Match}
    (mem : first ∈ importFrom.allMatches text) (mem' : second ∈ importOnly.allMatches text)
    (clause : ImportClause) :
    (ofMatch (Text.lineStarts text) first clause false false).Apart
      (ofMatch (Text.lineStarts text) second {} false true) := by
  obtain ⟨span, keyword, spells, covers, -⟩ :=
    exists_span "import" fromMiddle (by decide) mem
  obtain ⟨span', keyword', spells', covers', -⟩ :=
    exists_span "import" [blanks] (by decide) mem'
  obtain ⟨bare, ink⟩ := spells_fromMiddle spells
  have blank : ∀ c ∈ span'.inner, Text.isBlank c = true := spells'
  have covers := covers clause false false
  have covers' := covers' {} false true
  refine covers.apart_of_lastInk covers' (Span.bare_read keyword covers.indent bare)
    (Span.bare_read keyword' covers'.indent (bare_of_blank blank)) ?_ ?_ (by decide : 'm' ≠ 't')
  · rw [Span.read, Text.lastInk_append, ink, Option.some_or]
  · have word : Text.lastInk "import".toList = some 't' := by decide
    simp only [Span.read, keyword', Text.lastInk_append, Text.lastInk_of_blank blank, word,
      Option.none_or, Option.some_or]

/-! ## All statements of a text -/

/-- The matches of one pattern are statements that share no line. -/
theorem pairwise_apart_ofMatch (keyword : String) (middle : List Pattern) {p : Pattern}
    (shape : p = all (indentedLine :: lit keyword :: (middle ++ [quotedSpecifier])))
    (inky : keyword.toList.head?.any (fun c => !Text.isBlank c) = true) (text : List Char)
    (clause : Match → ImportClause) (reexport sideEffect : Bool) :
    ((p.allMatches text).map fun found =>
      ofMatch (Text.lineStarts text) found (clause found) reexport sideEffect).Pairwise Apart := by
  subst shape
  refine List.pairwise_map.mpr ?_
  refine (pairwise_matchesFrom _ 0 0 none text).imp_of_mem ?_
  intro first second mem mem' order
  obtain ⟨span, -, -, covers, -, stop⟩ := exists_span keyword middle inky mem
  obtain ⟨span', -, -, covers', start, -⟩ := exists_span keyword middle inky mem'
  have covers := covers (clause first) reexport sideEffect
  have covers' := covers' (clause second) reexport sideEffect
  have shorter : Text.byteLength (span.front ++ span.read) < Text.byteLength span'.front := by
    omega
  refine .inl (covers.lt_of_prefix covers' ?_ fun same => ?_)
  · exact Text.prefix_of_byteLength_le covers.begins_text covers'.front_begins_text
      (Nat.le_of_lt shorter)
  · rw [same] at shorter
    exact Nat.lt_irrefl _ shorter

/-- The statements of a text share no line if no import, for its effects or not, shares one with a
re-export. -/
theorem pairwise_apart_iff (text : List Char) :
    (parseAll text).Pairwise Apart ↔ ∀ one ∈ parseAll text, ∀ other ∈ parseAll text,
      one.reexport = false → other.reexport = true → one.Apart other := by
  let starts := Text.lineStarts text
  let imports := (importFrom.allMatches text).map fun found =>
    ofMatch starts found (ImportClause.parse (found.part 2)) false false
  let effects := (importOnly.allMatches text).map fun found => ofMatch starts found {} false true
  let reexports := (exportFrom.allMatches text).map fun found =>
    ofMatch starts found (reexportClause (found.part 2)) true false
  have perm : (parseAll text).Perm (imports ++ effects ++ reexports) := Ascending.perm_sortBy _ _
  have imported : ∀ one ∈ imports ++ effects, one.reexport = false := by
    intro one mem
    rcases List.mem_append.mp mem with mem | mem
    · obtain ⟨found, -, rfl⟩ := List.mem_map.mp mem
      rfl
    · obtain ⟨found, -, rfl⟩ := List.mem_map.mp mem
      rfl
  have exported : ∀ other ∈ reexports, other.reexport = true := by
    intro other mem
    obtain ⟨found, -, rfl⟩ := List.mem_map.mp mem
    rfl
  have keyword : "import".toList.head?.any (fun c => !Text.isBlank c) = true := by decide
  have apart : (imports ++ effects).Pairwise Apart := by
    refine List.pairwise_append.mpr ⟨?_, ?_, ?_⟩
    · exact pairwise_apart_ofMatch "import" fromMiddle rfl keyword text _ _ _
    · exact pairwise_apart_ofMatch "import" [blanks] rfl keyword text _ _ _
    · intro one mem other mem'
      obtain ⟨first, listed, rfl⟩ := List.mem_map.mp mem
      obtain ⟨second, listed', rfl⟩ := List.mem_map.mp mem'
      exact apart_of_import_of_effect listed listed' _
  have reexportsApart : reexports.Pairwise Apart :=
    pairwise_apart_ofMatch "export" exportMiddle rfl (by decide) text _ _ _
  rw [perm.pairwise_iff Apart.symm, List.pairwise_append]
  constructor
  · rintro ⟨-, -, cross⟩ one mem other mem' first second
    have one_mem : one ∈ imports ++ effects := by
      rcases List.mem_append.mp (perm.mem_iff.mp mem) with among | among
      · exact among
      · simp [exported one among] at first
    have other_mem : other ∈ reexports := by
      rcases List.mem_append.mp (perm.mem_iff.mp mem') with among | among
      · simp [imported other among] at second
      · exact among
    exact cross one one_mem other other_mem
  · intro cross
    refine ⟨apart, reexportsApart, fun one mem other mem' => ?_⟩
    exact cross one (perm.mem_iff.mpr (List.mem_append_left _ mem)) other
      (perm.mem_iff.mpr (List.mem_append_right _ mem')) (imported one mem) (exported other mem')

/-! ## Statements that stop at the keywords of others -/

def keyword (statement : ImportStatement) : String :=
  if statement.reexport then "export" else "import"

def laterLines (statement : ImportStatement) (text : List Char) : List (List Char) :=
  ((Text.linesChars text).take statement.endLine).drop statement.startLine

def opensWith (word : String) (line : List Char) : Bool :=
  Text.startsWithWord word.toList (line.dropWhile Text.isIndent)

/-- No import runs on over a line that begins with `export`, and no re-export over one that begins
with `import`. -/
def StopAtKeywords (text : List Char) : Prop :=
  ∀ statement ∈ parseAll text, ∀ line ∈ statement.laterLines text,
    opensWith (if statement.reexport then "import" else "export") line = false

instance (text : List Char) : Decidable (StopAtKeywords text) :=
  inferInstanceAs (Decidable (∀ statement ∈ parseAll text, _))

theorem exists_span_of_mem_parseAll {text : List Char} {statement : ImportStatement}
    (mem : statement ∈ parseAll text) :
    ∃ span : Span, span.keyword = statement.keyword ∧ span.Covers text statement := by
  rcases List.mem_append.mp ((Ascending.perm_sortBy _ _).mem_iff.mp mem) with mem | mem
  · rcases List.mem_append.mp mem with mem | mem
    · obtain ⟨found, listed, rfl⟩ := List.mem_map.mp mem
      obtain ⟨span, word, -, covers, -⟩ :=
        exists_span "import" fromMiddle (by decide) listed
      exact ⟨span, word, covers _ _ _⟩
    · obtain ⟨found, listed, rfl⟩ := List.mem_map.mp mem
      obtain ⟨span, word, -, covers, -⟩ :=
        exists_span "import" [blanks] (by decide) listed
      exact ⟨span, word, covers _ _ _⟩
  · obtain ⟨found, listed, rfl⟩ := List.mem_map.mp mem
    obtain ⟨span, word, -, covers, -⟩ :=
      exists_span "export" exportMiddle (by decide) listed
    exact ⟨span, word, covers _ _ _⟩

theorem keyword_cases (statement : ImportStatement) :
    statement.keyword = "import" ∨ statement.keyword = "export" := by
  unfold keyword
  split
  · exact .inr rfl
  · exact .inl rfl

theorem opensWith_append {indent : List Char} (indents : ∀ c ∈ indent, Text.isIndent c = true)
    {word : String} (ink : word.toList.head?.any (fun c => !Text.isIndent c) = true)
    {line : List Char} (begins : indent ++ word.toList <+: line) : opensWith word line = true := by
  obtain ⟨more, rfl⟩ := begins
  have stops : ∀ c ∈ (word.toList ++ more).head?, Text.isIndent c = false := by
    cases letters : word.toList with
    | nil => simp [letters] at ink
    | cons c rest => simpa [letters] using ink
  rw [opensWith, List.append_assoc, Text.dropWhile_append_of_stops indents stops,
    Text.startsWithWord, Text.dropWord?_append]
  rfl

theorem Span.Covers.opensWith {span : Span} {text : List Char} {statement : ImportStatement}
    (covers : span.Covers text statement) (word : span.keyword = statement.keyword) :
    ∃ line, (Text.linesChars text)[statement.startLine - 1]? = some line ∧
      opensWith statement.keyword line = true := by
  obtain ⟨quote, closing, rest, -, -, text_eq⟩ := covers.text_eq
  have letters : ∀ c ∈ statement.keyword.toList, c ≠ '\n' ∧ c ≠ '\r' := by
    rcases statement.keyword_cases with same | same <;> rw [same] <;> decide
  have ink : statement.keyword.toList.head?.any (fun c => !Text.isIndent c) = true := by
    rcases statement.keyword_cases with same | same <;> rw [same] <;> decide
  have some : statement.keyword.toList ≠ [] := by
    intro none
    simp [none] at ink
  have noFeed : '\n' ∉ span.indent ++ statement.keyword.toList := by
    rw [List.mem_append]
    rintro (mem | mem)
    · exact absurd (covers.indent _ mem) (by decide)
    · exact (letters _ mem).1 rfl
  have ends : (span.indent ++ statement.keyword.toList).getLast? ≠ Option.some '\r' := by
    rw [List.getLast?_append, List.getLast?_eq_some_getLast some, Option.some_or]
    intro last
    exact (letters _ (List.getLast_mem some)).2 (Option.some.inj last)
  obtain ⟨line, place, begins⟩ :=
    Text.getElem?_linesChars covers.begins (by simp [some]) noFeed ends
      (span.inner ++ quote :: (statement.specifier.toList ++ closing :: rest))
  have whole : text = span.front ++ (span.indent ++ statement.keyword.toList ++
      (span.inner ++ quote :: (statement.specifier.toList ++ closing :: rest))) := by
    rw [text_eq, Span.read, word]
    simp
  refine ⟨line, ?_, opensWith_append covers.indent ink begins⟩
  rwa [covers.startLine_eq, Nat.add_sub_cancel_left, whole]

theorem keyword_eq_of_opensWith {one other : ImportStatement} {line : List Char}
    (first : opensWith one.keyword line = true) (second : opensWith other.keyword line = true) :
    one.keyword = other.keyword := by
  obtain ⟨rest, begins⟩ := Option.isSome_iff_exists.mp first
  obtain ⟨rest', begins'⟩ := Option.isSome_iff_exists.mp second
  have same : one.keyword.toList ++ rest = other.keyword.toList ++ rest' :=
    (Text.eq_append_of_dropWord? begins).symm.trans (Text.eq_append_of_dropWord? begins')
  rcases one.keyword_cases with word | word <;> rcases other.keyword_cases with word' | word' <;>
    simp_all

theorem mem_laterLines {statement : ImportStatement} {text line : List Char} {index : Nat}
    (place : (Text.linesChars text)[index]? = some line) (behind : statement.startLine ≤ index)
    (within : index < statement.endLine) : line ∈ statement.laterLines text := by
  refine List.mem_of_getElem? (i := index - statement.startLine) ?_
  rw [laterLines, List.getElem?_drop, Nat.add_sub_cancel' behind, List.getElem?_take_of_lt within]
  exact place

/-- Two statements of a text that begin with different keywords share no line if the one above the
other stops at the keyword of the other. -/
theorem apart_of_stops {text : List Char} {one other : ImportStatement}
    (mem : one ∈ parseAll text) (mem' : other ∈ parseAll text)
    (differ : one.keyword ≠ other.keyword)
    (stops : ∀ line ∈ one.laterLines text, opensWith other.keyword line = false)
    (stops' : ∀ line ∈ other.laterLines text, opensWith one.keyword line = false) :
    one.Apart other := by
  obtain ⟨span, word, covers⟩ := exists_span_of_mem_parseAll mem
  obtain ⟨span', word', covers'⟩ := exists_span_of_mem_parseAll mem'
  obtain ⟨line, place, opens⟩ := covers.opensWith word
  obtain ⟨line', place', opens'⟩ := covers'.opensWith word'
  have start := (liesIn_of_mem_parseAll mem).start_pos
  have start' := (liesIn_of_mem_parseAll mem').start_pos
  refine Decidable.byContradiction fun overlap => ?_
  simp only [Apart, not_or, Nat.not_lt] at overlap
  rcases Nat.lt_trichotomy one.startLine other.startLine with above | same | below
  · have within := mem_laterLines place' (show one.startLine ≤ other.startLine - 1 by omega)
      (by omega)
    simp [stops line' within] at opens'
  · rw [same, place'] at place
    obtain rfl := Option.some.inj place
    exact differ (keyword_eq_of_opensWith opens opens')
  · have within := mem_laterLines place (show other.startLine ≤ one.startLine - 1 by omega)
      (by omega)
    simp [stops' line within] at opens

/-- Where statements stop at the keywords of others, they share no line. -/
theorem StopAtKeywords.pairwise_apart {text : List Char} (stop : StopAtKeywords text) :
    (parseAll text).Pairwise Apart := by
  refine (pairwise_apart_iff text).mpr fun one mem other mem' isImport isReexport => ?_
  have keyword : one.keyword = "import" := by simp [ImportStatement.keyword, isImport]
  have keyword' : other.keyword = "export" := by simp [ImportStatement.keyword, isReexport]
  refine apart_of_stops mem mem' (by simp [keyword, keyword']) ?_ ?_
  · simpa [keyword', isImport] using stop one mem
  · simpa [keyword, isReexport] using stop other mem'

end ImportStatement

end ChangeImpact
