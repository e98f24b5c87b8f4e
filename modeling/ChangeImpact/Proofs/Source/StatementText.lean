import ChangeImpact.Proofs.Pattern.Preferred
import ChangeImpact.Proofs.Source.ClauseText
import ChangeImpact.Proofs.Source.StatementSpans

/-!
# Where written statements begin

A statement begins with its keyword at the start of a line. No other line of a written statement
begins with a keyword: the lines between braces begin with a name, with the word `type` or with the
closing brace. So none of the statement patterns matches within a written statement, and of the two
patterns for imports only one matches at its start.
-/

namespace ChangeImpact

namespace ImportSyntax

open Pattern ImportStatement

/-! ## The word that a line begins with -/

def firstWord (text : List Char) : List Char :=
  (text.dropWhile Text.isIndent).takeWhile isPlain

theorem isPlain_of_isBlank {c : Char} (blank : Text.isBlank c = true) : isPlain c = false := by
  cases plain : isPlain c with
  | false => rfl
  | true => simp [isBlank_of_isPlain plain] at blank

theorem isPlain_of_isQuote {c : Char} (quote : isQuote c = true) : isPlain c = false := by
  simp only [isQuote, Bool.or_eq_true, beq_iff_eq] at quote
  rcases quote with rfl | rfl <;> decide

theorem isIndent_of_isPlain {c : Char} (plain : isPlain c = true) : Text.isIndent c = false := by
  cases indent : Text.isIndent c with
  | false => rfl
  | true => simp [isPlain_of_isBlank (Text.isBlank_of_isIndent indent)] at plain

theorem firstWord_append {indent word rest : List Char}
    (indents : ∀ c ∈ indent, Text.isIndent c = true) (plain : ∀ c ∈ word, isPlain c = true)
    (some : word ≠ []) (stops : ∀ c ∈ rest.head?, isPlain c = false) :
    firstWord (indent ++ (word ++ rest)) = word := by
  have begins : ∀ c ∈ (word ++ rest).head?, Text.isIndent c = false := by
    obtain ⟨c, letters, rfl⟩ := List.exists_cons_of_ne_nil some
    rintro d ⟨⟩
    exact isIndent_of_isPlain (plain c List.mem_cons_self)
  rw [firstWord, Text.dropWhile_append_of_stops indents begins,
    Text.takeWhile_append_of_stops plain stops]

def IsKeyword (word : String) : Prop :=
  word = "import" ∨ word = "export"

theorem IsKeyword.plain {word : String} (keyword : IsKeyword word) :
    (∀ c ∈ word.toList, isPlain c = true) ∧ word.toList ≠ [] := by
  rcases keyword with rfl | rfl <;> exact ⟨by decide, by decide⟩

theorem Name.not_isKeyword (name : Name) : ∀ word, IsKeyword word → name.chars ≠ word.toList := by
  rintro word (rfl | rfl)
  · exact name.chars_ne (by decide)
  · exact name.chars_ne (by decide)

/-! ## Patterns that begin a line -/

/-- The pattern matches at the start of a line only, and only where a word stands. -/
def BeginsLine (p : Pattern) (word : String) : Prop :=
  ∀ {trace next : Trace}, next ∈ p.results trace →
    (∀ c ∈ trace.place.before, c = '\n') ∧ firstWord trace.place.rest = word.toList

theorem beginsLine_of_statement {word : String} (keyword : IsKeyword word) {rest : List Pattern}
    (stops : ∀ read, (all rest).Spells read → ∀ c ∈ read.head?, isPlain c = false)
    (some : ∀ read, (all rest).Spells read → read ≠ []) :
    BeginsLine (all (indentedLine :: lit word :: rest)) word := by
  intro trace next mem
  rw [results_all_cons] at mem
  obtain ⟨indented, one, two⟩ := List.mem_flatMap.mp mem
  obtain ⟨begins, indent, indents, spaced⟩ := mem_results_indentedLine one
  obtain ⟨read, spelled, reads⟩ := spells_of_mem_results two
  obtain ⟨letters, inner, rfl, isWord, spells⟩ := spells_all_cons.mp spelled
  obtain rfl := spells_lit.mp isWord
  refine ⟨begins, ?_⟩
  have behind : ∀ c ∈ (inner ++ next.place.rest).head?, isPlain c = false := by
    obtain ⟨c, more, split⟩ := List.exists_cons_of_ne_nil (some inner spells)
    rw [split]
    exact fun d mem => stops inner spells d (by rw [split]; exact mem)
  rw [(spaced.trans reads).rest, List.append_assoc, List.append_assoc]
  exact firstWord_append indents keyword.plain.1 keyword.plain.2 behind

theorem spells_quotedSpecifier {read : List Char} (spells : quotedSpecifier.Spells read) :
    ∃ quote rest, read = quote :: rest ∧ isQuote quote = true := by
  obtain ⟨_, rest, rfl, ⟨quote, holds, rfl⟩, -⟩ := spells_all_cons.mp spells
  exact ⟨quote, rest, rfl, holds⟩

theorem spells_blanks1_cons {rest : List Pattern} {read : List Char}
    (spells : (all (blanks1 :: rest)).Spells read) :
    ∃ c more, read = c :: more ∧ Text.isBlank c = true := by
  obtain ⟨space, back, rfl, spaces, -⟩ := spells_all_cons.mp spells
  obtain ⟨_, more, rfl, ⟨c, blank, rfl⟩, -⟩ := spaces
  exact ⟨c, more ++ back, rfl, blank⟩

theorem beginsLine_of_blanks1 {word : String} (keyword : IsKeyword word) (rest : List Pattern) :
    BeginsLine (all (indentedLine :: lit word :: blanks1 :: rest)) word := by
  refine beginsLine_of_statement keyword (fun read spells => ?_) fun read spells => ?_
  · obtain ⟨c, more, rfl, blank⟩ := spells_blanks1_cons spells
    rintro d ⟨⟩
    exact isPlain_of_isBlank blank
  · obtain ⟨c, more, rfl, -⟩ := spells_blanks1_cons spells
    exact List.cons_ne_nil c more

theorem beginsLine_importFrom : BeginsLine importFrom "import" :=
  beginsLine_of_blanks1 (.inl rfl) _

theorem beginsLine_exportFrom : BeginsLine exportFrom "export" :=
  beginsLine_of_blanks1 (.inr rfl) _

theorem beginsLine_importOnly : BeginsLine importOnly "import" := by
  refine beginsLine_of_statement (.inl rfl) (fun read spells => ?_) fun read spells => ?_
  · obtain ⟨space, back, rfl, blank, quoted⟩ := spells_all_cons.mp spells
    obtain ⟨quote, rest, rfl, isQuote⟩ := spells_quotedSpecifier quoted
    cases space with
    | nil =>
      rintro d ⟨⟩
      exact isPlain_of_isQuote isQuote
    | cons c space =>
      rintro d ⟨⟩
      exact isPlain_of_isBlank (blank c List.mem_cons_self)
  · obtain ⟨space, back, rfl, -, quoted⟩ := spells_all_cons.mp spells
    obtain ⟨quote, rest, rfl, -⟩ := spells_quotedSpecifier quoted
    simp

theorem BeginsLine.matchAt?_eq_none {p : Pattern} {word : String} (begins : BeginsLine p word)
    {place : Cursor} (other : (∀ c ∈ place.before, c = '\n') →
      firstWord place.rest ≠ word.toList) : p.matchAt? place = none := by
  cases ways : p.results ⟨place, []⟩ with
  | nil => simp [Pattern.matchAt?, ways]
  | cons next others =>
    obtain ⟨starts, first⟩ := @begins ⟨place, []⟩ next (by simp [ways])
    exact absurd first (other starts)

/-! ## Lines that begin with no keyword -/

/-- No line after the first one begins with a keyword, whatever may follow. -/
def Quiet (text : List Char) : Prop :=
  ∀ front back, text = front ++ '\n' :: back → ∀ after word, IsKeyword word →
    firstWord (back ++ after) ≠ word.toList

theorem quiet_of_not_mem {text : List Char} (noFeed : '\n' ∉ text) : Quiet text := by
  rintro front back rfl
  simp at noFeed

theorem Quiet.append {one other : List Char} (quiet : Quiet one) (quiet' : Quiet other) :
    Quiet (one ++ other) := by
  intro front back split after word keyword
  rcases List.append_eq_append_iff.mp split with ⟨more, rfl, there⟩ | ⟨more, here, there⟩
  · exact quiet' more back there after word keyword
  · cases more with
    | nil => exact quiet' [] back there.symm after word keyword
    | cons c more =>
      rw [List.cons_append] at there
      obtain ⟨rfl, rfl⟩ := List.cons.inj there
      rw [List.append_assoc]
      exact quiet front more here (other ++ after) word keyword

theorem quiet_flatMap {α : Type} {f : α → List Char} (each : ∀ x, Quiet (f x)) (xs : List α) :
    Quiet (xs.flatMap f) := by
  induction xs with
  | nil => exact quiet_of_not_mem List.not_mem_nil
  | cons x xs ih => exact (each x).append ih

theorem quiet_line {line : List Char} (noFeed : '\n' ∉ line)
    (first : ∀ after word, IsKeyword word → firstWord (line ++ after) ≠ word.toList) :
    Quiet ('\n' :: line) := by
  intro front back split
  cases front with
  | nil =>
    obtain ⟨-, rfl⟩ := List.cons.inj split
    exact first
  | cons c front =>
    obtain ⟨-, rfl⟩ := List.cons.inj split
    simp at noFeed

theorem Entry.firstWord_ne (entry : Entry) (indent : Nat) (after : List Char) {word : String}
    (keyword : IsKeyword word) :
    firstWord (List.replicate indent ' ' ++ entry.chars ++ [','] ++ after) ≠ word.toList := by
  have indents : ∀ c ∈ List.replicate indent ' ', Text.isIndent c = true := by
    intro c mem
    obtain rfl := (List.mem_replicate.mp mem).2
    rfl
  cases typeOnly : entry.typeOnly with
  | true =>
    have split : List.replicate indent ' ' ++ entry.chars ++ [','] ++ after =
        List.replicate indent ' ' ++ ("type".toList ++
          (' ' :: (entry.name.chars ++ entry.tail ++ [','] ++ after))) := by
      simp [Entry.chars, typePrefix, typeOnly]
    have plain : ∀ c ∈ "type".toList, isPlain c = true := by decide
    have stops : ∀ c ∈ (' ' :: (entry.name.chars ++ entry.tail ++ [','] ++ after)).head?,
        isPlain c = false := by
      rintro c ⟨⟩
      rfl
    have first := firstWord_append indents plain (by decide) stops
    rw [split, first]
    rcases keyword with rfl | rfl <;> decide
  | false =>
    have split : List.replicate indent ' ' ++ entry.chars ++ [','] ++ after =
        List.replicate indent ' ' ++ (entry.name.chars ++ (entry.tail ++ ',' :: after)) := by
      simp [Entry.chars, typePrefix, typeOnly]
    have stops : ∀ c ∈ (entry.tail ++ ',' :: after).head?, isPlain c = false := by
      cases tail : entry.tail with
      | nil =>
        rintro c ⟨⟩
        rfl
      | cons d rest =>
        have stops := entry.tail_stops
        rw [tail] at stops
        exact stops
    rw [split, firstWord_append indents entry.name.plain entry.name.chars_ne_nil stops]
    exact entry.name.not_isKeyword word keyword

theorem Braces.quiet (braces : Braces) : Quiet braces.chars := by
  have noFeed : ∀ entry : Entry, '\n' ∉ entry.chars := fun entry =>
    entry.not_mem (by decide) (by decide)
  cases layout : braces.layout with
  | oneLine =>
    refine quiet_of_not_mem ?_
    simp [Braces.chars, Braces.inner, layout, noFeed]
  | perLine indent =>
    have split : braces.chars = ['{'] ++ braces.entries.flatMap
        (fun entry => '\n' :: (List.replicate indent ' ' ++ entry.chars ++ [','])) ++
          ['\n', '}'] := by
      simp [Braces.chars, Braces.inner, layout]
    have item : ∀ entry : Entry,
        Quiet ('\n' :: (List.replicate indent ' ' ++ entry.chars ++ [','])) := fun entry =>
      quiet_line (by simp [noFeed]) fun after word keyword =>
        entry.firstWord_ne indent after keyword
    have last : Quiet ('\n' :: ['}']) := quiet_line (by decide) fun after word keyword => by
      have none : firstWord (['}'] ++ after) = [] := rfl
      rw [none]
      exact keyword.plain.2.symm
    rw [split]
    exact ((quiet_of_not_mem (by decide)).append (quiet_flatMap item _)).append last

theorem Name.quiet (name : Name) : Quiet name.chars :=
  quiet_of_not_mem (name.not_mem (by decide))

theorem Binding.quiet (binding : Binding) : Quiet binding.chars := by
  cases binding with
  | wholeModule name => exact (quiet_of_not_mem (by decide)).append name.quiet
  | named braces => exact braces.quiet

theorem Clause.quiet (clause : Clause) : Quiet clause.chars := by
  cases clause with
  | default name => exact name.quiet
  | only binding => exact binding.quiet
  | both name binding =>
    exact (name.quiet.append (quiet_of_not_mem (by decide))).append binding.quiet

theorem quiet_typePrefix (typeOnly : Bool) : Quiet (typePrefix typeOnly) := by
  cases typeOnly <;> exact quiet_of_not_mem (by decide)

theorem Specifier.not_mem_feed (specifier : Specifier) : '\n' ∉ specifier.chars := by
  have quote : ∀ {c}, isQuote c = true → '\n' ≠ c := by
    rintro _ quote rfl
    exact absurd quote (by decide)
  have noFeed : '\n' ∉ specifier.text.toList := fun mem => (specifier.clean _ mem).2 rfl
  simp [Specifier.chars, quote specifier.quotes.1, quote specifier.quotes.2, noFeed]

namespace Statement

variable (statement : Statement)

theorem quiet_opening : Quiet statement.opening := by
  have plain : ∀ {word : String}, '\n' ∉ word.toList → Quiet word.toList := quiet_of_not_mem
  cases statement with
  | importFrom typeOnly clause _ =>
    exact (((plain (by decide)).append (quiet_typePrefix typeOnly)).append clause.quiet).append
      (plain (by decide))
  | importOnly _ => exact plain (by decide)
  | exportFrom typeOnly braces _ =>
    exact (((plain (by decide)).append (quiet_typePrefix typeOnly)).append braces.quiet).append
      (plain (by decide))
  | exportAll typeOnly _ =>
    exact ((plain (by decide)).append (quiet_typePrefix typeOnly)).append (plain (by decide))

def body : List Char :=
  statement.opening ++ (statement.specifier.chars ++ [';'])

theorem chars_eq_body : statement.chars = statement.body ++ ['\n'] := by
  simp [chars, body]

theorem quiet_body : Quiet statement.body := by
  refine statement.quiet_opening.append (quiet_of_not_mem ?_)
  simp [statement.specifier.not_mem_feed]

/-- No pattern of statements matches within a statement, behind its start. -/
theorem matchAt?_within {p : Pattern} {word : String} (begins : BeginsLine p word)
    (keyword : IsKeyword word) (place : Cursor) (rest : List Char) {front back : List Char}
    (split : statement.chars = front ++ back) (some : front ≠ []) (some' : back ≠ []) :
    p.matchAt? (place.past front (back ++ rest)) = none := by
  refine begins.matchAt?_eq_none fun starts => ?_
  obtain ⟨front, c, rfl⟩ := (List.eq_nil_or_concat front).resolve_left some
  obtain ⟨back, d, rfl⟩ := (List.eq_nil_or_concat back).resolve_left some'
  obtain rfl : c = '\n' := starts c (by simp [Cursor.past])
  have ends : statement.body ++ ['\n'] = (front ++ '\n' :: back) ++ [d] := by
    rw [← statement.chars_eq_body, split]
    simp
  obtain ⟨whole, feed⟩ := List.append_inj' ends rfl
  have quiet := statement.quiet_body front back whole ([d] ++ rest) word keyword
  simpa using quiet

end Statement

/-! ## What a statement begins with -/

theorem Clause.not_mem (clause : Clause) {c : Char} (other : isPlain c = false)
    (ink : Text.isBlank c = false) (mark : c ∉ [',', '{', '}', '*']) : c ∉ clause.chars := by
  have noBlank : c ≠ ' ' := by
    rintro rfl
    exact absurd ink (by decide)
  simp only [List.mem_cons, List.not_mem_nil, or_false, not_or] at mark
  obtain ⟨noComma, noOpen, noClose, noStar⟩ := mark
  have noA : c ≠ 'a' := by rintro rfl; exact absurd other (by decide)
  have noS : c ≠ 's' := by rintro rfl; exact absurd other (by decide)
  have name : ∀ name : Name, c ∉ name.chars := fun name => name.not_mem other
  have binding : ∀ binding : Binding, c ∉ binding.chars := by
    intro binding
    cases binding with
    | wholeModule other => simp [Binding.chars_wholeModule, name, noStar, noBlank, noA, noS]
    | named braces =>
      simp [Binding.chars_named, Braces.chars, noOpen, noClose,
        braces.not_mem_inner other ink noComma]
  cases clause with
  | default one => exact name one
  | only one => exact binding one
  | both one rest => simp [chars, name, binding, noComma, noBlank]

theorem Clause.bare (clause : Clause) : ∀ c ∈ clause.chars, (!(isQuote c || c == ';')) = true := by
  intro c mem
  cases quote : isQuote c with
  | false =>
    simp only [Bool.false_or, Bool.not_eq_true', beq_eq_false_iff_ne]
    rintro rfl
    exact clause.not_mem (by decide) (by decide) (by decide) mem
  | true =>
    have noMark : c ∉ [',', '{', '}', '*'] := by
      simp only [isQuote, Bool.or_eq_true, beq_iff_eq] at quote
      rcases quote with rfl | rfl <;> decide
    exact absurd mem
      (clause.not_mem (isPlain_of_isQuote quote) (isBlank_of_isQuote quote) noMark)

theorem Clause.quoteFree (clause : Clause) : ∀ c ∈ clause.chars, isQuote c = false := by
  intro c mem
  have bare := clause.bare c mem
  simp only [Bool.not_eq_true', Bool.or_eq_false_iff] at bare
  exact bare.1

namespace Statement

def keyword : Statement → String
  | importFrom _ _ _ => "import"
  | importOnly _ => "import"
  | exportFrom _ _ _ => "export"
  | exportAll _ _ => "export"

variable (statement : Statement)

theorem isKeyword_keyword : IsKeyword statement.keyword := by
  cases statement with
  | importFrom _ _ _ => exact .inl rfl
  | importOnly _ => exact .inl rfl
  | exportFrom _ _ _ => exact .inr rfl
  | exportAll _ _ => exact .inr rfl

theorem toList_import : "import ".toList = "import".toList ++ [' '] := rfl

theorem toList_export : "export ".toList = "export".toList ++ [' '] := rfl

theorem exists_opening :
    ∃ more, statement.opening = statement.keyword.toList ++ ' ' :: more := by
  cases statement with
  | importFrom typeOnly clause _ =>
    refine ⟨typePrefix typeOnly ++ (clause.chars ++ " from ".toList), ?_⟩
    simp only [opening_importFrom, toList_import, List.append_assoc, List.singleton_append]
    rfl
  | importOnly _ => exact ⟨[], toList_import⟩
  | exportFrom typeOnly braces _ =>
    refine ⟨typePrefix typeOnly ++ (braces.chars ++ " from ".toList), ?_⟩
    simp only [opening_exportFrom, toList_export, List.append_assoc, List.singleton_append]
    rfl
  | exportAll typeOnly _ =>
    refine ⟨typePrefix typeOnly ++ "* from ".toList, ?_⟩
    simp only [opening_exportAll, toList_export, List.append_assoc, List.singleton_append]
    rfl

theorem firstWord_chars (rest : List Char) :
    firstWord (statement.chars ++ rest) = statement.keyword.toList := by
  obtain ⟨more, opening⟩ := statement.exists_opening
  have split : statement.chars ++ rest = [] ++ (statement.keyword.toList ++
      (' ' :: (more ++ (statement.specifier.chars ++ ";\n".toList ++ rest)))) := by
    simp [chars, opening]
  rw [split]
  refine firstWord_append (by simp) statement.isKeyword_keyword.plain.1
    statement.isKeyword_keyword.plain.2 ?_
  rintro c ⟨⟩
  rfl

theorem matchAt?_other_keyword {p : Pattern} {word : String} (begins : BeginsLine p word)
    (other : word ≠ statement.keyword) {place : Cursor} {rest : List Char}
    (text : place.rest = statement.chars ++ rest) : p.matchAt? place = none := by
  refine begins.matchAt?_eq_none fun _ => ?_
  rw [text, statement.firstWord_chars]
  exact fun same => other (String.toList_inj.mp same).symm

/-- A pattern for imports does not match a statement whose text up to the specifier ends in another
way than it reads. -/
theorem matchAt?_other_ending (word : String) (middle : List Pattern) (c : Char)
    (ends : ∀ inner, (all middle).Spells inner → (∀ d ∈ inner, isQuote d = false) ∧
      Text.lastInk (word.toList ++ inner) = some c)
    (wordBare : ∀ d ∈ word.toList, isQuote d = false)
    (bare : ∀ d ∈ statement.opening, isQuote d = false)
    (differ : Text.lastInk statement.opening ≠ some c) {place : Cursor} {rest : List Char}
    (text : place.rest = statement.chars ++ rest) :
    (all (indentedLine :: lit word :: (middle ++ [quotedSpecifier]))).matchAt? place = none := by
  have none : (all (indentedLine :: lit word :: (middle ++ [quotedSpecifier]))).results
      ⟨place, []⟩ = [] := by
    refine results_eq_nil_of_not_spelled fun read spells begins => ?_
    obtain ⟨indent, _, rfl, indents, spells⟩ := spells_all_cons.mp spells
    obtain ⟨letters, _, rfl, isWord, spells⟩ := spells_all_cons.mp spells
    obtain ⟨inner, quoted, rfl, isInner, isQuoted⟩ := spells_all_append spells
    obtain ⟨quote, spec, rfl, isQuote⟩ := spells_quotedSpecifier isQuoted
    obtain rfl := spells_lit.mp isWord
    obtain ⟨anchor, blanks, rfl, rfl, indents⟩ := indents
    obtain ⟨innerBare, ink⟩ := ends inner isInner
    obtain ⟨more, whole⟩ := begins
    rw [text] at whole
    have cut : (blanks ++ (word.toList ++ inner)) ++ quote :: (spec ++ more) =
        statement.opening ++ statement.specifier.openQuote ::
          (statement.specifier.text.toList ++ [statement.specifier.closeQuote] ++ ";\n".toList ++
            rest) := by
      simpa [chars, Specifier.chars] using whole
    have frontBare : ∀ d ∈ blanks ++ (word.toList ++ inner), ImportStatement.isQuote d = false := by
      refine List.forall_mem_append.mpr ⟨fun d mem => ?_, ?_⟩
      · exact isQuote_of_isBlank (Text.isBlank_of_isIndent (indents d mem))
      · exact List.forall_mem_append.mpr ⟨wordBare, innerBare⟩
    have same := Text.append_cons_inj cut frontBare bare isQuote statement.specifier.quotes.1
    rw [← same, Text.lastInk_append, ink] at differ
    exact differ rfl
  simp [Pattern.matchAt?, none]

end Statement

theorem bare_typePrefix (typeOnly : Bool) : ∀ c ∈ typePrefix typeOnly, isQuote c = false := by
  cases typeOnly <;> decide

theorem importOnly_matchAt?_importFrom {typeOnly : Bool} {clause : Clause} {specifier : Specifier}
    {place : Cursor} {rest : List Char}
    (text : place.rest = (Statement.importFrom typeOnly clause specifier).chars ++ rest) :
    importOnly.matchAt? place = none := by
  have word : Text.lastInk "import".toList = some 't' := by decide
  refine Statement.matchAt?_other_ending _ "import" [blanks] 't' ?ends (by decide) ?bare ?differ text
  case ends =>
    intro inner spells
    have blank : ∀ c ∈ inner, Text.isBlank c = true := spells
    refine ⟨bare_of_blank blank, ?_⟩
    rw [Text.lastInk_append, Text.lastInk_of_blank blank, word, Option.none_or]
  case bare =>
    simp only [Statement.opening_importFrom, List.forall_mem_append]
    exact ⟨⟨⟨by decide, bare_typePrefix typeOnly⟩, clause.quoteFree⟩, by decide⟩
  case differ =>
    have ending : Text.lastInk " from ".toList = some 'm' := by decide
    rw [Statement.opening_importFrom, Text.lastInk_append, ending, Option.some_or]
    decide

theorem importFrom_matchAt?_importOnly {specifier : Specifier} {place : Cursor} {rest : List Char}
    (text : place.rest = (Statement.importOnly specifier).chars ++ rest) :
    importFrom.matchAt? place = none := by
  refine Statement.matchAt?_other_ending _ "import" fromMiddle 'm' ?ends (by decide) ?bare ?differ
    text
  case ends =>
    intro inner spells
    obtain ⟨bare, ink⟩ := spells_fromMiddle spells
    exact ⟨bare, by rw [Text.lastInk_append, ink, Option.some_or]⟩
  all_goals
    rw [Statement.opening_importOnly]
    decide

end ImportSyntax

end ChangeImpact
