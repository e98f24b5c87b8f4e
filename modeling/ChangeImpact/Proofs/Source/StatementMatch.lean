import ChangeImpact.Proofs.Source.StatementText

/-!
# Matching a written statement

At the start of a written statement the pattern of its kind prefers one way: over the words, then
over what is bound, up to the specifier. The parts of the match are the parts of the statement, and
its places are on the lines of the statement.
-/

namespace ChangeImpact

namespace ImportSyntax

open Pattern ImportStatement

/-! ## Matching the parts of a statement -/

def pastSpecifier (trace : Trace) (specifier : Specifier) (rest : List Char) : Trace :=
  ⟨trace.place.past specifier.chars rest,
    ⟨3, trace.place.past [specifier.openQuote]
        (specifier.text.toList ++ specifier.closeQuote :: rest),
      (trace.place.past [specifier.openQuote]
        (specifier.text.toList ++ specifier.closeQuote :: rest)).past specifier.text.toList
          (specifier.closeQuote :: rest)⟩ :: trace.captures⟩

theorem prefers_quotedSpecifier {trace : Trace} {specifier : Specifier} {rest : List Char}
    (text : trace.place.rest = specifier.chars ++ rest) :
    quotedSpecifier.Prefers trace (pastSpecifier trace specifier rest) := by
  obtain ⟨opens, closes⟩ := specifier.quotes
  have some : specifier.text.toList ≠ [] := by simpa using specifier.nonempty
  have clean : ∀ c ∈ specifier.text.toList, (!isQuote c) = true := fun c mem => by
    simp [(specifier.clean c mem).1]
  have split : trace.place.rest = specifier.openQuote ::
      (specifier.text.toList ++ specifier.closeQuote :: rest) := by
    simpa [Specifier.chars] using text
  have one : (one isQuote).Prefers trace (trace.past [specifier.openQuote]
      (specifier.text.toList ++ specifier.closeQuote :: rest)) := prefers_one split opens
  obtain ⟨c, letters, name⟩ := List.exists_cons_of_ne_nil some
  have whole : pastSpecifier trace specifier rest =
      (((trace.past [specifier.openQuote] (specifier.text.toList ++ specifier.closeQuote :: rest)).past
        specifier.text.toList (specifier.closeQuote :: rest)).closing 3 (trace.past
          [specifier.openQuote] (specifier.text.toList ++ specifier.closeQuote :: rest)).place).past
            [specifier.closeQuote] rest := by
    simp [pastSpecifier, Trace.past, Trace.closing, Cursor.past_past, Specifier.chars]
  rw [whole]
  refine one.all_cons (Prefers.all_cons (Prefers.group 3 ?_) (prefers_one rfl closes))
  rw [name] at clean ⊢
  exact prefers_many1 (by simp [Trace.past]) clean (by
    rintro d ⟨⟩
    simp [closes])

theorem prefers_blanks {trace : Trace} {c : Char} {rest : List Char}
    (text : trace.place.rest = ' ' :: c :: rest) (ink : Text.isBlank c = false) :
    blanks.Prefers trace (trace.past [' '] (c :: rest)) := by
  refine prefers_many text (by decide) ?_
  rintro d ⟨⟩
  exact ink

theorem prefers_blanks1 {trace : Trace} {rest : List Char} (text : trace.place.rest = ' ' :: rest)
    (ink : ∀ c ∈ rest.head?, Text.isBlank c = false) :
    blanks1.Prefers trace (trace.past [' '] rest) :=
  @prefers_many1 _ [] _ _ _ text (by decide) ink

theorem prefers_from {trace : Trace} {specifier : Specifier} {rest : List Char}
    (text : trace.place.rest = " from ".toList ++ (specifier.chars ++ rest)) :
    (all [blanks, lit "from", blanks, quotedSpecifier]).Prefers trace
      (pastSpecifier (trace.past " from ".toList (specifier.chars ++ rest)) specifier rest) := by
  have ink : Text.isBlank specifier.openQuote = false := isBlank_of_isQuote specifier.quotes.1
  have first : blanks.Prefers trace (trace.past [' '] ("from".toList ++ ' ' :: (specifier.chars ++
      rest))) := prefers_blanks text (by decide)
  have word := @prefers_lit (trace.past [' '] ("from".toList ++ ' ' :: (specifier.chars ++ rest)))
    (' ' :: (specifier.chars ++ rest)) "from" rfl
  have second := @prefers_blanks ((trace.past [' '] ("from".toList ++
    ' ' :: (specifier.chars ++ rest))).past "from".toList (' ' :: (specifier.chars ++ rest))) _ _ rfl
      ink
  have steps : (((trace.past [' '] ("from".toList ++ ' ' :: (specifier.chars ++ rest))).past
      "from".toList (' ' :: (specifier.chars ++ rest))).past [' '] (specifier.chars ++ rest)) =
        trace.past " from ".toList (specifier.chars ++ rest) := by
    simp only [Trace.past, Cursor.past_past]
    rfl
  rw [← steps]
  exact first.all_cons (word.all_cons (second.all_cons (prefers_quotedSpecifier rfl)))

def typeCaptures (typeOnly : Bool) (place : Cursor) (rest : List Char) : List Capture :=
  if typeOnly then [⟨1, place, place.past "type ".toList rest⟩] else []

theorem prefers_typeKeyword {trace : Trace} {typeOnly : Bool} {rest : List Char}
    (text : trace.place.rest = typePrefix typeOnly ++ rest)
    (ink : ∀ c ∈ rest.head?, Text.isBlank c = false)
    (noType : rest.takeWhile isPlain ≠ "type".toList) :
    typeKeyword.Prefers trace ⟨trace.place.past (typePrefix typeOnly) rest,
      typeCaptures typeOnly trace.place rest ++ trace.captures⟩ := by
  cases typeOnly with
  | true =>
    have word := @prefers_lit trace (' ' :: rest) "type" text
    have space : (all [blanks1]).Prefers (trace.past "type".toList (' ' :: rest))
        ((trace.past "type".toList (' ' :: rest)).past [' '] rest) :=
      prefers_blanks1 rfl ink
    have steps : (trace.past "type".toList (' ' :: rest)).past [' '] rest =
        trace.past "type ".toList rest := by
      simp only [Trace.past, Cursor.past_past]
      rfl
    rw [steps] at space
    exact ((word.all_cons space).group 1).opt
  | false =>
    have none : (group 1 (all [lit "type", blanks1])).results trace = [] := by
      refine results_eq_nil_of_not_spelled fun read spells begins => noType ?_
      obtain ⟨letters, space, rfl, isWord, isSpace⟩ := spells_all_cons.mp spells
      obtain ⟨c, after, rfl, blank⟩ := @spells_blanks1_cons [] _ isSpace
      obtain rfl := spells_lit.mp isWord
      obtain ⟨more, whole⟩ := begins
      have same : rest = "type".toList ++ (c :: after ++ more) := by
        rw [← List.append_assoc, whole, text]
        rfl
      rw [same]
      refine Text.takeWhile_append_of_stops (by decide) ?_
      rintro d ⟨⟩
      exact isPlain_of_isBlank blank
    have here : trace.place.past (typePrefix false) rest = trace.place := by
      rw [← show trace.place.rest = rest from text]
      rfl
    rw [here]
    exact prefers_opt_of_nil none

theorem prefers_indentedLine {place : Cursor} {c : Char} {rest : List Char}
    (text : place.rest = c :: rest) (begins : ∀ d ∈ place.before, d = '\n')
    (plain : isPlain c = true) : indentedLine.Prefers ⟨place, []⟩ ⟨place, []⟩ := by
  have anchored : (anchor .lineStart).Prefers ⟨place, []⟩ ⟨place, []⟩ := by
    have holds : Anchor.holds place .lineStart = true := by
      cases before : place.before with
      | none => simp [Anchor.holds, before]
      | some d => simp [Anchor.holds, before, begins d before]
    simp [Prefers, results, holds]
  have nothing : (many Text.isIndent).Prefers ⟨place, []⟩ (Trace.past ⟨place, []⟩ [] place.rest) := by
    refine prefers_many rfl (by simp) ?_
    rw [text]
    rintro d ⟨⟩
    exact isIndent_of_isPlain plain
  exact anchored.seq nothing

/-- The words that a statement with a specifier after `from` begins with. -/
theorem prefers_opening {word : String} (keyword : IsKeyword word) {place : Cursor}
    {typeOnly : Bool} {rest : List Char}
    (text : place.rest = word.toList ++ ' ' :: (typePrefix typeOnly ++ rest))
    (begins : ∀ c ∈ place.before, c = '\n') (ink : ∀ c ∈ rest.head?, Text.isBlank c = false)
    (noType : rest.takeWhile isPlain ≠ "type".toList) {more : List Pattern} {next : Trace}
    (further : (all more).Prefers
      ⟨place.past (word.toList ++ ' ' :: typePrefix typeOnly) rest,
        typeCaptures typeOnly (place.past (word.toList ++ [' ']) (typePrefix typeOnly ++ rest))
          rest⟩ next) :
    (all (indentedLine :: lit word :: blanks1 :: typeKeyword :: more)).Prefers ⟨place, []⟩ next := by
  have line : indentedLine.Prefers ⟨place, []⟩ ⟨place, []⟩ := by
    obtain ⟨c, letters, split⟩ := List.exists_cons_of_ne_nil keyword.plain.2
    refine prefers_indentedLine (text.trans (by rw [split]; rfl)) begins ?_
    exact keyword.plain.1 c (split ▸ List.mem_cons_self)
  have isWord := @prefers_lit ⟨place, []⟩ _ word text
  have stops : ∀ c ∈ (typePrefix typeOnly ++ rest).head?, Text.isBlank c = false := by
    cases typeOnly with
    | true =>
      rintro c ⟨⟩
      decide
    | false => exact ink
  have space : blanks1.Prefers
      (Trace.past ⟨place, []⟩ word.toList (' ' :: (typePrefix typeOnly ++ rest)))
      ((Trace.past ⟨place, []⟩ word.toList (' ' :: (typePrefix typeOnly ++ rest))).past [' ']
        (typePrefix typeOnly ++ rest)) :=
    prefers_blanks1 rfl stops
  have typeWord := @prefers_typeKeyword
    ((Trace.past ⟨place, []⟩ word.toList (' ' :: (typePrefix typeOnly ++ rest))).past [' ']
      (typePrefix typeOnly ++ rest)) typeOnly rest rfl ink noType
  simp only [Trace.past, Cursor.past_past, List.append_nil, List.append_assoc,
    List.singleton_append] at space typeWord
  exact line.all_cons (isWord.all_cons (space.all_cons (typeWord.all_cons further)))

/-! ## What a match shows -/

namespace Statement

def typeOnly : Statement → Bool
  | importFrom typeOnly _ _ => typeOnly
  | importOnly _ => false
  | exportFrom typeOnly _ _ => typeOnly
  | exportAll typeOnly _ => typeOnly

def bound : Statement → List Char
  | importFrom _ clause _ => clause.chars
  | importOnly _ => []
  | exportFrom _ braces _ => braces.chars
  | exportAll _ _ => ['*']

/-- A match of a statement at a place, with the parts of the statement. -/
structure Shows (statement : Statement) (place : Cursor) (found : Match) : Prop where
  typeOnly_eq : found.has 1 = statement.typeOnly
  bound_eq : found.part 2 = statement.bound
  specifier_eq : found.part 3 = statement.specifier.text.toList
  place_eq : (found.capture? 3).map (·.start.offset) = some
    (place.offset + Text.byteLength (statement.opening ++ [statement.specifier.openQuote]))
  start_eq : found.start = place
  stop : place.Reads (statement.opening ++ statement.specifier.chars) found.stop

theorem Shows.inkOffset_eq {statement : Statement} {place : Cursor} {found : Match}
    (shows : statement.Shows place found) : found.inkOffset = place.offset := by
  obtain ⟨more, opening⟩ := statement.exists_opening
  have text : found.text = statement.opening ++ statement.specifier.chars := by
    rw [Match.text, shows.start_eq, shows.stop.textTo]
  have blanks : Text.leadingBlanks found.text = [] := by
    obtain ⟨c, letters, split⟩ := List.exists_cons_of_ne_nil statement.isKeyword_keyword.plain.2
    have plain := statement.isKeyword_keyword.plain.1 c (split ▸ List.mem_cons_self)
    simp [text, opening, split, Text.leadingBlanks, isBlank_of_isPlain plain]
  rw [Match.inkOffset, blanks, shows.start_eq]
  rfl

theorem Shows.ofMatch_eq {statement : Statement} {place : Cursor} {found : Match}
    (shows : statement.Shows place found) {text front rest : List Char}
    (split : text = front ++ (statement.chars ++ rest))
    (offset : place.offset = Text.byteLength front) (clause : ImportClause)
    (reexport sideEffect : Bool) :
    ofMatch (Text.lineStarts text) found clause reexport sideEffect =
      ⟨1 + front.count '\n', 1 + front.count '\n' + statement.opening.count '\n',
        statement.specifier.text, statement.typeOnly, clause, reexport, sideEffect⟩ := by
  have quote : [statement.specifier.openQuote].count '\n' = 0 := by
    refine List.count_eq_zero.mpr fun feed => ?_
    have isQuote := statement.specifier.quotes.1
    rw [← List.mem_singleton.mp feed] at isQuote
    exact absurd isQuote (by decide)
  have start : front <+: text := ⟨statement.chars ++ rest, split.symm⟩
  have upTo : front ++ (statement.opening ++ [statement.specifier.openQuote]) <+: text := by
    refine ⟨statement.specifier.text.toList ++ statement.specifier.closeQuote :: (";\n".toList ++ rest),
      ?_⟩
    rw [split, chars, Specifier.chars]
    simp
  have count : (front ++ (statement.opening ++ [statement.specifier.openQuote])).count '\n' =
      front.count '\n' + statement.opening.count '\n' := by
    rw [List.count_append, List.count_append, quote, Nat.add_zero]
  have startLine := Text.lineOf_byteLength start
  have endLine := Text.lineOf_byteLength upTo
  rw [Text.byteLength_append, ← offset, count, ← Nat.add_assoc] at endLine
  rw [← offset] at startLine
  have place_eq : ((found.capture? 3).map (·.start.offset)).getD 0 =
      place.offset + Text.byteLength (statement.opening ++ [statement.specifier.openQuote]) := by
    rw [shows.place_eq, Option.getD_some]
  rw [ofMatch, shows.inkOffset_eq, place_eq, startLine, endLine, shows.specifier_eq,
    String.ofList_toList, shows.typeOnly_eq]

/-- A way of matching a statement up to its specifier goes on to a match of the statement. -/
theorem exists_shows {statement : Statement} {p : Pattern} {place : Cursor} {rest : List Char}
    {middle : Trace} (text : place.rest = statement.chars ++ rest)
    (way : p.Prefers ⟨place, []⟩ (pastSpecifier middle statement.specifier (";\n".toList ++ rest)))
    (here : middle.place = place.past statement.opening
      (statement.specifier.chars ++ (";\n".toList ++ rest)))
    (typeOnly : (middle.captures.find? (·.index == 1)).isSome = statement.typeOnly)
    (bound : ((middle.captures.find? (·.index == 2)).map fun capture =>
      capture.start.textTo capture.stop).getD [] = statement.bound) :
    ∃ found, p.matchAt? place = some found ∧ statement.Shows place found := by
  have split : place.rest =
      statement.opening ++ statement.specifier.chars ++ (";\n".toList ++ rest) := by
    rw [text, chars, List.append_assoc]
  refine ⟨_, way.matchAt?, typeOnly, bound, ?_, ?_, rfl, ?_⟩
  · exact Cursor.textTo_past rfl
  · have offset : (middle.place.past [statement.specifier.openQuote] []).offset =
        place.offset + Text.byteLength (statement.opening ++ [statement.specifier.openQuote]) := by
      rw [here, Cursor.past_past]
      rfl
    exact congrArg some offset
  · have reads := Cursor.reads_past split
    rwa [← Cursor.past_past place statement.opening
      (statement.specifier.chars ++ (";\n".toList ++ rest)), ← here] at reads

/-- A statement with a specifier after `from` is matched by the pattern whose second part matches
what is bound. -/
theorem exists_shows_of_binds {statement : Statement} {bind : Pattern} {place : Cursor}
    {rest : List Char} {word : String} (isWord : statement.keyword = word)
    (text : place.rest = statement.chars ++ rest) (begins : ∀ c ∈ place.before, c = '\n')
    (opening : statement.opening = word.toList ++
      ' ' :: (typePrefix statement.typeOnly ++ (statement.bound ++ " from ".toList)))
    (some : statement.bound ≠ [])
    (ink : ∀ c ∈ statement.bound.head?, Text.isBlank c = false)
    (noType : ∀ rest, (statement.bound ++ (" from ".toList ++ rest)).takeWhile isPlain ≠
      "type".toList)
    (binds : ∀ {trace : Trace} {rest : List Char},
      trace.place.rest =
        statement.bound ++ (" from ".toList ++ (statement.specifier.chars ++ rest)) →
      (all [group 2 bind, blanks, lit "from", blanks, quotedSpecifier]).Prefers trace
        (pastSpecifier
          (((trace.past statement.bound
            (" from ".toList ++ (statement.specifier.chars ++ rest))).closing 2 trace.place).past
              " from ".toList (statement.specifier.chars ++ rest)) statement.specifier rest)) :
    ∃ found, (all (indentedLine :: lit word :: blanks1 :: typeKeyword ::
      [group 2 bind, blanks, lit "from", blanks, quotedSpecifier])).matchAt? place = .some found ∧
        statement.Shows place found := by
  subst isWord
  let ending := ";\n".toList ++ rest
  let behind := " from ".toList ++ (statement.specifier.chars ++ ending)
  have split : place.rest = statement.keyword.toList ++
      ' ' :: (typePrefix statement.typeOnly ++ (statement.bound ++ behind)) := by
    rw [text, chars, opening]
    simp only [List.append_assoc, List.cons_append, behind, ending]
  have first : ∀ c ∈ (statement.bound ++ behind).head?, Text.isBlank c = false := by
    obtain ⟨c, more, bound⟩ := List.exists_cons_of_ne_nil some
    rw [bound] at ink ⊢
    exact ink
  have way := prefers_opening statement.isKeyword_keyword split begins first (noType _)
    (@binds _ ending rfl)
  refine exists_shows text way ?_ ?_ ?_
  · rw [opening]
    simp only [Trace.past, Trace.closing, Cursor.past_past, List.append_assoc, List.cons_append]
    rfl
  · cases statement.typeOnly <;> rfl
  · exact Cursor.textTo_past rfl

end Statement

/-! ## Matching what is bound -/

theorem takeWhile_isPlain_of_mark {c : Char} (mark : isPlain c = false) (rest : List Char) :
    (c :: rest).takeWhile isPlain = [] := by
  simp [mark]

theorem Binding.takeWhile_isPlain (binding : Binding) (rest : List Char) :
    (binding.chars ++ rest).takeWhile isPlain = [] := by
  cases binding with
  | wholeModule name => exact takeWhile_isPlain_of_mark (by decide) _
  | named braces => exact takeWhile_isPlain_of_mark (by decide) _

namespace Clause

variable (clause : Clause)

theorem chars_ne_nil : clause.chars ≠ [] := by
  cases clause with
  | default name => exact name.chars_ne_nil
  | only binding => exact binding.chars_ne_nil
  | both name binding =>
    intro none
    rw [chars, List.append_assoc] at none
    exact name.chars_ne_nil (List.append_eq_nil_iff.mp none).1

/-- A clause does not begin with the word `type`. -/
theorem takeWhile_isPlain_ne (rest : List Char) :
    (clause.chars ++ (" from ".toList ++ rest)).takeWhile isPlain ≠ "type".toList := by
  have notType : ∀ name : Name, name.chars ≠ "type".toList := fun name => name.chars_ne (by decide)
  cases clause with
  | default name =>
    have word : (name.chars ++ (" from ".toList ++ rest)).takeWhile isPlain = name.chars := by
      refine name.takeWhile_isPlain ?_
      rintro c ⟨⟩
      decide
    rw [chars, word]
    exact notType name
  | only binding =>
    rw [chars, binding.takeWhile_isPlain]
    decide
  | both name binding =>
    have word : (name.chars ++ (", ".toList ++ (binding.chars ++ (" from ".toList ++ rest)))).takeWhile
        isPlain = name.chars := by
      refine name.takeWhile_isPlain ?_
      rintro c ⟨⟩
      decide
    rw [chars, List.append_assoc, List.append_assoc, word]
    exact notType name

end Clause

/-- What stands before ` from ` is not taken for the blanks before it. -/
theorem from_results_eq_nil {trace : Trace} {back : List Char} {specifier : Specifier}
    {rest : List Char}
    (text : trace.place.rest = back ++ (" from ".toList ++ (specifier.chars ++ rest)))
    (bare : ∀ c ∈ back, isQuote c = false) {c : Char} (mem : c ∈ back)
    (ink : Text.isBlank c = false) :
    (all [blanks, lit "from", blanks, quotedSpecifier]).results trace = [] := by
  refine results_eq_nil_of_not_spelled fun read spells begins => ?_
  obtain ⟨before, _, rfl, blank, spells⟩ := spells_all_cons.mp spells
  obtain ⟨word, _, rfl, isWord, spells⟩ := spells_all_cons.mp spells
  obtain ⟨after, _, rfl, blank', quoted⟩ := spells_all_cons.mp spells
  obtain ⟨quote, more, rfl, isQuote⟩ := spells_quotedSpecifier quoted
  obtain rfl := spells_lit.mp isWord
  have blank : ∀ c ∈ before, Text.isBlank c = true := blank
  have blank' : ∀ c ∈ after, Text.isBlank c = true := blank'
  obtain ⟨left, whole⟩ := begins
  have cut : (before ++ ("from".toList ++ after)) ++ quote :: (more ++ left) =
      (back ++ " from ".toList) ++ specifier.openQuote ::
        (specifier.text.toList ++ [specifier.closeQuote] ++ rest) := by
    simpa [text, Specifier.chars] using whole
  have same := Text.append_cons_inj cut
    (List.forall_mem_append.mpr ⟨bare_of_blank blank,
      List.forall_mem_append.mpr ⟨by decide, bare_of_blank blank'⟩⟩)
    (List.forall_mem_append.mpr ⟨bare, by decide⟩) isQuote specifier.quotes.1
  -- The letters of `from` are all the ink there is.
  have none : ∀ {text : List Char}, (∀ c ∈ text, Text.isBlank c = true) →
      text.countP (fun c => !Text.isBlank c) = 0 := by
    intro text blank
    exact List.countP_eq_zero.mpr fun c mem => by simp [blank c mem]
  have count := congrArg (List.countP fun c => !Text.isBlank c) same
  have letters : "from".toList.countP (fun c => !Text.isBlank c) = 4 := by decide
  have letters' : " from ".toList.countP (fun c => !Text.isBlank c) = 4 := by decide
  have some : 0 < back.countP fun c => !Text.isBlank c :=
    List.countP_pos_iff.mpr ⟨c, mem, by simp [ink]⟩
  simp only [List.countP_append, none blank, none blank', letters, letters'] at count
  omega

theorem exists_shows_importFrom {typeOnly : Bool} {clause : Clause} {specifier : Specifier}
    {place : Cursor} {rest : List Char}
    (text : place.rest = (Statement.importFrom typeOnly clause specifier).chars ++ rest)
    (begins : ∀ c ∈ place.before, c = '\n') :
    ∃ found, importFrom.matchAt? place = some found ∧
      (Statement.importFrom typeOnly clause specifier).Shows place found := by
  refine Statement.exists_shows_of_binds rfl text begins ?_ clause.chars_ne_nil clause.isTrimmed.head
    clause.takeWhile_isPlain_ne ?_
  · simp only [Statement.opening_importFrom, Statement.toList_import, List.append_assoc,
      List.singleton_append]
    rfl
  · intro trace rest here
    refine Prefers.few_seq here clause.bare (fun front back split some => ?_) (prefers_from rfl)
    have split : clause.chars = front ++ back := split
    have last : back.getLast some ∈ clause.chars.getLast? := by
      rw [split, List.getLast?_append, List.getLast?_eq_some_getLast some]
      rfl
    refine from_results_eq_nil rfl (fun c mem => clause.quoteFree c ?_) (List.getLast_mem some)
      (clause.isTrimmed.last _ last)
    rw [split]
    exact List.mem_append_right front mem

theorem Braces.prefers (braces : Braces) {trace : Trace} {rest : List Char}
    (text : trace.place.rest = braces.chars ++ rest) :
    (all [char '{', many (· != '}'), char '}']).Prefers trace (trace.past braces.chars rest) := by
  have split : trace.place.rest = '{' :: (braces.inner ++ '}' :: rest) := by
    simpa [Braces.chars] using text
  have inside : ∀ c ∈ braces.inner, (c != '}') = true := by
    intro c mem
    rw [bne_iff_ne]
    rintro rfl
    exact braces.not_mem_inner (by decide) (by decide) (by decide) mem
  have entries : (many (· != '}')).Prefers (trace.past ['{'] (braces.inner ++ '}' :: rest))
      ((trace.past ['{'] (braces.inner ++ '}' :: rest)).past braces.inner ('}' :: rest)) :=
    prefers_many rfl inside (by
      rintro c ⟨⟩
      decide)
  have steps : ((trace.past ['{'] (braces.inner ++ '}' :: rest)).past braces.inner
      ('}' :: rest)).past ['}'] rest = trace.past braces.chars rest := by
    simp [Trace.past, Cursor.past_past, Braces.chars]
  rw [← steps]
  exact (prefers_char split).all_cons (entries.all_cons (prefers_char rfl))

def star : Pattern :=
  .all [.char '*', .opt (.all [blanks1, .lit "as", blanks1, .identifier])]

theorem exists_shows_exportFrom {typeOnly : Bool} {braces : Braces} {specifier : Specifier}
    {place : Cursor} {rest : List Char}
    (text : place.rest = (Statement.exportFrom typeOnly braces specifier).chars ++ rest)
    (begins : ∀ c ∈ place.before, c = '\n') :
    ∃ found, ImportStatement.exportFrom.matchAt? place = some found ∧
      (Statement.exportFrom typeOnly braces specifier).Shows place found := by
  refine Statement.exists_shows_of_binds rfl text begins ?_ (List.cons_ne_nil '{' _)
    braces.isTrimmed.head (fun rest => ?_) ?_
  · simp only [Statement.opening_exportFrom, Statement.toList_export, List.append_assoc,
      List.singleton_append]
    rfl
  · have none : (braces.chars ++ (" from ".toList ++ rest)).takeWhile isPlain = [] :=
      takeWhile_isPlain_of_mark (by decide) _
    rw [Statement.bound, none]
    decide
  · intro trace rest here
    have noStar : star.results trace = [] := by
      refine results_eq_nil_of_not_spelled fun read spells begins => ?_
      obtain ⟨_, more, rfl, ⟨c, mark, rfl⟩, -⟩ := spells_all_cons.mp spells
      obtain rfl : c = '*' := by simpa using mark
      obtain ⟨left, whole⟩ := begins
      rw [here] at whole
      exact absurd (List.cons.inj whole).1 (by decide)
    have bound := (Prefers.alt_right noStar (braces.prefers here)).group 2
    exact bound.all_cons (prefers_from rfl)

theorem exists_shows_exportAll {typeOnly : Bool} {specifier : Specifier} {place : Cursor}
    {rest : List Char} (text : place.rest = (Statement.exportAll typeOnly specifier).chars ++ rest)
    (begins : ∀ c ∈ place.before, c = '\n') :
    ∃ found, ImportStatement.exportFrom.matchAt? place = some found ∧
      (Statement.exportAll typeOnly specifier).Shows place found := by
  refine Statement.exists_shows_of_binds rfl text begins ?_ (List.cons_ne_nil '*' _) ?_
    (fun rest => ?_) ?_
  · simp only [Statement.opening_exportAll, Statement.toList_export, List.append_assoc,
      List.singleton_append]
    rfl
  · rintro c ⟨⟩
    decide
  · have none : (['*'] ++ (" from ".toList ++ rest)).takeWhile isPlain = [] :=
      takeWhile_isPlain_of_mark (by decide) _
    rw [Statement.bound, none]
    decide
  · intro trace rest here
    have noName : (all [blanks1, lit "as", blanks1, identifier]).results (trace.past ['*']
        (" from ".toList ++ (specifier.chars ++ rest))) = [] := by
      refine results_eq_nil_of_not_spelled fun read spells begins => ?_
      obtain ⟨space, _, rfl, isSpace, spells⟩ := spells_all_cons.mp spells
      obtain ⟨word, more, rfl, isWord, -⟩ := spells_all_cons.mp spells
      obtain rfl := spells_lit.mp isWord
      obtain ⟨left, whole⟩ := begins
      -- Behind the blanks stands `as` in the one text and `from` in the other.
      have ink : ∀ c ∈ ("as".toList ++ (more ++ left)).head?, Text.isBlank c = false := by
        rintro c ⟨⟩
        decide
      have word := Text.dropWhile_append_of_stops (spells_blanks1 isSpace) ink
      have other : (" from ".toList ++ (specifier.chars ++ rest)).dropWhile Text.isBlank =
          "from ".toList ++ (specifier.chars ++ rest) := rfl
      have same : space ++ ("as".toList ++ (more ++ left)) =
          " from ".toList ++ (specifier.chars ++ rest) := by
        rw [← List.append_assoc "as".toList, ← List.append_assoc]
        exact whole
      rw [same, other] at word
      exact absurd (List.cons.inj word).1 (by decide)
    have mark : star.Prefers trace (trace.past ['*']
        (" from ".toList ++ (specifier.chars ++ rest))) :=
      (prefers_char here).all_cons (prefers_opt_of_nil noName)
    exact (mark.alt_left.group 2).all_cons (prefers_from rfl)

theorem exists_shows_importOnly {specifier : Specifier} {place : Cursor} {rest : List Char}
    (text : place.rest = (Statement.importOnly specifier).chars ++ rest)
    (begins : ∀ c ∈ place.before, c = '\n') :
    ∃ found, ImportStatement.importOnly.matchAt? place = some found ∧
      (Statement.importOnly specifier).Shows place found := by
  let ending := ";\n".toList ++ rest
  have ink : Text.isBlank specifier.openQuote = false := isBlank_of_isQuote specifier.quotes.1
  have split : place.rest = "import".toList ++ (' ' :: (specifier.chars ++ ending)) := by
    rw [text, Statement.chars, Statement.opening_importOnly, List.append_assoc, List.append_assoc]
    rfl
  have line : indentedLine.Prefers ⟨place, []⟩ ⟨place, []⟩ :=
    prefers_indentedLine split begins (by decide)
  have word := @prefers_lit ⟨place, []⟩ _ "import" split
  have space := @prefers_blanks
    (Trace.past ⟨place, []⟩ "import".toList (' ' :: (specifier.chars ++ ending))) _ _ rfl ink
  have quoted : (all [quotedSpecifier]).Prefers _ _ := @prefers_quotedSpecifier
    ((Trace.past ⟨place, []⟩ "import".toList (' ' :: (specifier.chars ++ ending))).past [' ']
      (specifier.chars ++ ending)) specifier ending rfl
  have way := line.all_cons (word.all_cons (space.all_cons quoted))
  refine Statement.exists_shows text way ?_ rfl rfl
  simp only [Trace.past, Cursor.past_past]
  rfl

end ImportSyntax

end ChangeImpact
