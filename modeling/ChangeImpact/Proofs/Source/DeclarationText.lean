import ChangeImpact.Proofs.Source.StatementMatch
import ChangeImpact.Proofs.Text.Endings
import ChangeImpact.Source.Declaration

/-!
# Where a declaration begins

The pattern of a declaration matches at the start of a line only, and only where a word stands
before a blank: the keyword, or one of the words that may stand before it. So in a text none of
whose later lines begins in this way a declaration is found at the start of the text or nowhere.
-/

namespace ChangeImpact

namespace Declaration

open ImportSyntax (isPlain isIdentifier)
open Pattern

/-! ## The word that a line begins with -/

def behindWord (text : List Char) : List Char :=
  (text.dropWhile Text.isIndent).dropWhile isPlain

def wordThenBlank (text : List Char) : Bool :=
  (behindWord text).head?.any Text.isBlank

theorem wordThenBlank_append {indent word : List Char} {c : Char} {rest : List Char}
    (indents : ∀ c ∈ indent, Text.isIndent c = true) (isWord : Text.IsWordOf isPlain word)
    (mark : isPlain c = false) :
    wordThenBlank (indent ++ (word ++ c :: rest)) = Text.isBlank c := by
  have begins : ∀ d ∈ (word ++ c :: rest).head?, Text.isIndent d = false := by
    obtain ⟨first, letters, rfl⟩ := List.exists_cons_of_ne_nil isWord.nonempty
    rintro d ⟨⟩
    exact ImportSyntax.isIndent_of_isPlain (isWord.letters first List.mem_cons_self)
  have stops : ∀ d ∈ (c :: rest).head?, isPlain d = false := by
    rintro d ⟨⟩
    exact mark
  rw [wordThenBlank, behindWord, Text.dropWhile_append_of_stops indents begins,
    Text.dropWhile_append_of_stops isWord.letters stops]
  rfl

/-- No line after the first one begins with a word and a blank. -/
def Wordless (text : List Char) : Prop :=
  ∀ front back, text = front ++ '\n' :: back → wordThenBlank back = false

theorem wordless_withFeeds {first : List Char} {lines : List (List Char)} {rest : List Char}
    (free : Text.FeedFree (first :: lines)) (restFree : '\n' ∉ rest)
    (each : ∀ line ∈ lines, ∀ after, wordThenBlank (line ++ '\n' :: after) = false)
    (last : wordThenBlank rest = false) :
    Wordless (Text.withFeeds (first :: lines) rest) := by
  intro front back split
  obtain ⟨above, line, below, shape, -, rfl⟩ := Text.exists_of_withFeeds_eq free restFree split
  cases below with
  | nil => exact last
  | cons next below =>
    have later : next ∈ lines := by
      cases above with
      | nil => exact (List.cons.inj shape).2 ▸ List.mem_cons_self
      | cons _ above =>
        rw [(List.cons.inj shape).2]
        exact List.mem_append_right above (List.mem_cons_of_mem line List.mem_cons_self)
    rw [Text.withFeeds_cons]
    exact each next later _

/-! ## Patterns that begin with a word -/

/-- The pattern matches at the start of a line only, and only where a word stands before a blank. -/
def BeginsWithWord (p : Pattern) : Prop :=
  ∀ {trace next : Trace}, next ∈ p.results trace →
    (∀ c ∈ trace.place.before, c = '\n') ∧ wordThenBlank trace.place.rest = true

/-- Words of a list, each with blanks behind it, up to a keyword and a blank. -/
inductive Introduces (words : List String) (keyword : String) : List Char → Prop
  | keyword {c : Char} {rest : List Char} (blank : Text.isBlank c = true) :
      Introduces words keyword (keyword.toList ++ c :: rest)
  | word {word : String} {space rest : List Char} (mem : word ∈ words) (some : space ≠ [])
      (blank : ∀ c ∈ space, Text.isBlank c = true) (further : Introduces words keyword rest) :
      Introduces words keyword (word.toList ++ (space ++ rest))

theorem spells_modifier {word : String} {read : List Char}
    (spells : (ExportRef.modifier word).Spells read) :
    read = [] ∨ ∃ space, read = word.toList ++ space ∧ space ≠ [] ∧
      ∀ c ∈ space, Text.isBlank c = true := by
  rcases spells with taken | none
  · obtain ⟨_, space, rfl, isWord, isSpace⟩ := spells_all_cons.mp taken
    obtain rfl := spells_lit.mp isWord
    obtain ⟨c, more, rfl, -⟩ := @ImportSyntax.spells_blanks1_cons [] _ isSpace
    exact .inr ⟨c :: more, rfl, List.cons_ne_nil c more, ImportStatement.spells_blanks1 isSpace⟩
  · exact .inl none

section

variable {words : List String} {keyword : String}

theorem introduces_of_spells {some : List String} (within : some ⊆ words) {rest : List Pattern}
    {read : List Char} (spells : (all (all (some.map ExportRef.modifier) :: lit keyword ::
      blanks1 :: rest)).Spells read)
    (behind : List Char) : Introduces words keyword (read ++ behind) := by
  obtain ⟨front, back, rfl, modified, further⟩ := spells_all_cons.mp spells
  clear spells
  induction some generalizing front with
  | nil =>
    obtain rfl : front = [] := modified
    obtain ⟨_, more, rfl, isKeyword, spaced⟩ := spells_all_cons.mp further
    obtain rfl := spells_lit.mp isKeyword
    obtain ⟨c, more, rfl, blank⟩ := ImportSyntax.spells_blanks1_cons spaced
    rw [List.nil_append, List.append_assoc]
    exact .keyword blank
  | cons word some ih =>
    obtain ⟨mem, within⟩ := List.cons_subset.mp within
    obtain ⟨one, other, rfl, here, later⟩ := spells_all_cons.mp modified
    have tail := ih within other later
    rcases spells_modifier here with rfl | ⟨space, rfl, nonempty, blank⟩
    · exact tail
    · have whole := Introduces.word mem nonempty blank tail
      simpa using whole

theorem Introduces.exists_word {text : List Char} (introduces : Introduces words keyword text) :
    ∃ word ∈ keyword :: words, ∃ c rest, text = word.toList ++ c :: rest ∧
      Text.isBlank c = true := by
  cases introduces with
  | keyword blank => exact ⟨keyword, List.mem_cons_self, _, _, rfl, blank⟩
  | @word word space rest mem some blank further =>
    obtain ⟨c, space, rfl⟩ := List.exists_cons_of_ne_nil some
    exact ⟨word, List.mem_cons_of_mem keyword mem, c, space ++ rest, rfl,
      blank c List.mem_cons_self⟩

variable (plain : ∀ word ∈ keyword :: words, Text.IsWordOf isPlain word.toList)
include plain

theorem Introduces.isPlain_head? {text : List Char} (introduces : Introduces words keyword text) :
    ∀ c ∈ text.head?, isPlain c = true := by
  obtain ⟨word, mem, c, rest, rfl, -⟩ := introduces.exists_word
  obtain ⟨d, letters, shape⟩ := List.exists_cons_of_ne_nil (plain word mem).nonempty
  rw [shape]
  rintro _ ⟨⟩
  exact (plain word mem).letters d (shape ▸ List.mem_cons_self)

/-- The word that a text begins with is the keyword, or one of the words before it. -/
theorem Introduces.of_word {first rest : List Char}
    (introduces : Introduces words keyword (first ++ ' ' :: rest))
    (isFirst : Text.IsWordOf isPlain first) (ink : ∀ c ∈ rest.head?, Text.isBlank c = false) :
    keyword.toList = first ∨ (∃ word ∈ words, word.toList = first) ∧
      Introduces words keyword rest := by
  have mark : ∀ {c : Char} {rest : List Char}, Text.isBlank c = true →
      (c :: rest).head?.any isPlain = false := fun blank => ImportSyntax.isPlain_of_isBlank blank
  generalize text : first ++ ' ' :: rest = whole at introduces
  cases introduces with
  | keyword blank =>
    exact .inl (Text.IsWordOf.eq_of_append_eq (plain keyword List.mem_cons_self) isFirst
      (mark blank) (mark rfl) text.symm)
  | @word word space more mem some blank further =>
    obtain ⟨c, space, rfl⟩ := List.exists_cons_of_ne_nil some
    have same := Text.IsWordOf.eq_of_append_eq (plain word (List.mem_cons_of_mem keyword mem))
      isFirst (mark (blank c List.mem_cons_self)) (mark rfl) text.symm
    refine .inr ⟨⟨word, mem, same⟩, ?_⟩
    rw [same, List.append_cancel_left_eq] at text
    -- Neither of the texts behind the blanks begins with a blank.
    have begins : ∀ d ∈ more.head?, Text.isBlank d = false := fun d first =>
      ImportSyntax.isBlank_of_isPlain (further.isPlain_head? plain d first)
    have behind := congrArg (List.dropWhile Text.isBlank) text
    have dropped : (' ' :: rest).dropWhile Text.isBlank = rest :=
      @Text.dropWhile_append_of_stops Text.isBlank [' '] rest (by decide) ink
    rw [Text.dropWhile_append_of_stops blank begins, dropped] at behind
    exact behind ▸ further

/-- A declaration is matched at the start of a line, behind whose indentation it is introduced. -/
theorem introduces_of_mem_named {trace next : Trace}
    (mem : next ∈ (named words keyword).results trace) :
    (∀ c ∈ trace.place.before, c = '\n') ∧
      Introduces words keyword (trace.place.rest.dropWhile Text.isIndent) := by
  rw [named, results_all_cons] at mem
  obtain ⟨middle, indented, mem⟩ := List.mem_flatMap.mp mem
  obtain ⟨begins, indent, indents, spaced⟩ := ImportStatement.mem_results_indentedLine indented
  obtain ⟨read, spells, reads⟩ := spells_of_mem_results mem
  have introduces := introduces_of_spells (List.Subset.refl words) spells next.place.rest
  have first : ∀ c ∈ (read ++ next.place.rest).head?, Text.isIndent c = false := fun c first =>
    ImportSyntax.isIndent_of_isPlain (introduces.isPlain_head? plain c first)
  refine ⟨begins, ?_⟩
  rwa [spaced.rest, reads.rest, Text.dropWhile_append_of_stops indents first]

theorem beginsWithWord_named : BeginsWithWord (named words keyword) := by
  intro trace next mem
  obtain ⟨begins, introduces⟩ := introduces_of_mem_named plain mem
  obtain ⟨word, mem, c, rest, text, blank⟩ := introduces.exists_word
  refine ⟨begins, ?_⟩
  have stops : ∀ d ∈ (c :: rest).head?, isPlain d = false := by
    rintro d ⟨⟩
    exact ImportSyntax.isPlain_of_isBlank blank
  rw [wordThenBlank, behindWord, text,
    Text.dropWhile_append_of_stops (plain word mem).letters stops]
  exact blank

end

theorem BeginsWithWord.all_cons {p : Pattern} (begins : BeginsWithWord p) (rest : List Pattern) :
    BeginsWithWord (all (p :: rest)) := by
  intro trace next mem
  rw [results_all_cons] at mem
  obtain ⟨middle, here, -⟩ := List.mem_flatMap.mp mem
  exact begins here

theorem beginsWithWord_interfaceDecl : BeginsWithWord interfaceDecl :=
  beginsWithWord_named (by decide)

theorem beginsWithWord_typeDecl : BeginsWithWord typeDecl :=
  BeginsWithWord.all_cons (beginsWithWord_named (by decide)) _

/-- Where no later line begins with a word and a blank, a declaration begins with the text. -/
theorem BeginsWithWord.allMatches_eq {p : Pattern} (begins : BeginsWithWord p) {text : List Char}
    (wordless : Wordless text) (some : text ≠ []) :
    p.allMatches text = (p.matchAt? ⟨none, text, 0⟩).toList := by
  let start : Cursor := ⟨none, text, 0⟩
  have elsewhere : ∀ front back, text = front ++ back → front ≠ [] →
      p.matchAt? (start.past front (back ++ [])) = none := by
    intro front back split nonempty
    cases ways : p.results ⟨start.past front (back ++ []), []⟩ with
    | nil => rw [Pattern.matchAt?, ways, List.head?_nil, Option.map_none]
    | cons next others =>
      obtain ⟨starts, word⟩ := begins (ways ▸ List.mem_cons_self)
      obtain ⟨above, c, rfl⟩ : ∃ above c, front = above ++ [c] :=
        ⟨_, _, (List.dropLast_concat_getLast nonempty).symm⟩
      obtain rfl : c = '\n' := starts c (by simp [Cursor.past])
      have quiet := wordless above back (by rw [split, List.append_assoc, List.singleton_append])
      rw [Cursor.rest_past, List.append_nil, quiet] at word
      exact absurd word Bool.false_ne_true
  have last : p.matchesOn (start.past text []) = [] := by
    have nothing := elsewhere text [] (List.append_nil text).symm some
    rw [matchesOn, Cursor.rest_past, matchesFrom, if_neg (Nat.not_lt_zero _)]
    rw [List.append_nil] at nothing
    exact congrArg Option.toList nothing
  have whole : start.rest = text ++ [] := (List.append_nil text).symm
  show p.matchesOn start = _
  cases here : p.matchAt? start with
  | none =>
    rw [matchesOn_past whole, last]
    · rfl
    · intro front back split nonempty
      rcases List.eq_nil_or_concat front with rfl | ⟨above, c, rfl⟩
      · rw [List.nil_append] at split
        rw [← split, List.append_nil]
        exact here
      · exact elsewhere _ back split (by simp)
  | some found =>
    have inside : found.stop.offset ≤ (start.past text []).offset := by
      have ends := (finds_of_matchAt? here).stop.total_eq
      have starts := (finds_of_matchAt? here).start.total_eq
      simp only [Cursor.total, Cursor.past, start] at *
      omega
    rw [matchesOn_found whole some here inside
      (fun front back split nonempty _ => .inr (elsewhere front back split nonempty)), last]
    rfl

/-! ## Matching the words of a declaration -/

section

variable {trace : Trace} {word : String} {rest : List Char}

theorem prefers_modifier (text : trace.place.rest = word.toList ++ ' ' :: rest)
    (ink : ∀ c ∈ rest.head?, Text.isBlank c = false) :
    (ExportRef.modifier word).Prefers trace (trace.past (word.toList ++ [' ']) rest) := by
  have space : (all [blanks1]).Prefers (trace.past word.toList (' ' :: rest))
      ((trace.past word.toList (' ' :: rest)).past [' '] rest) :=
    ImportSyntax.prefers_blanks1 rfl ink
  rw [Trace.past, Trace.past, Cursor.past_past] at space
  exact ((prefers_lit text).all_cons space).opt

theorem prefers_modifier_absent (absent : ∀ c more,
    trace.place.rest = word.toList ++ c :: more → Text.isBlank c = false) :
    (ExportRef.modifier word).Prefers trace trace := by
  refine prefers_opt_of_nil (results_eq_nil_of_not_spelled fun read spells begins => ?_)
  obtain ⟨_, space, rfl, isWord, isSpace⟩ := spells_all_cons.mp spells
  obtain rfl := spells_lit.mp isWord
  obtain ⟨c, more, rfl, blank⟩ := @ImportSyntax.spells_blanks1_cons [] _ isSpace
  obtain ⟨left, whole⟩ := begins
  have ink := absent c (more ++ left) (by rw [← whole]; simp)
  exact absurd blank (by simp [ink])

theorem prefers_identifier {name : List Char} (valid : isIdentifier name = true)
    (text : trace.place.rest = name ++ rest)
    (stops : ∀ c ∈ rest.head?, Text.isNameChar c = false) :
    identifier.Prefers trace (trace.past name rest) := by
  obtain ⟨c, letters, rfl, start, plain⟩ := ImportSyntax.exists_of_isIdentifier valid
  have first : (one Text.isNameStart).Prefers trace (trace.past [c] (letters ++ rest)) :=
    prefers_one text start
  have further : (many Text.isNameChar).Prefers (trace.past [c] (letters ++ rest))
      ((trace.past [c] (letters ++ rest)).past letters rest) :=
    prefers_many rfl (fun d mem => ImportSyntax.isNameChar_of_isPlain
      (plain d (List.mem_cons_of_mem c mem))) stops
  rw [Trace.past, Trace.past, Cursor.past_past] at further
  exact first.seq further

end

end Declaration

end ChangeImpact
