import ChangeImpact.Proofs.Source.ImportSyntax
import ChangeImpact.Proofs.Text.Pieces
import ChangeImpact.Proofs.Text.Rewriting

/-!
# Reading the clause that was written

A name ends where a character stands that is no letter, digit, `_` or `$`. So the names of an entry
are found between its words and blanks, the entries between the commas, and what stands before the
braces is told apart by the star.
-/

namespace ChangeImpact

open Text (IsTrimmed trimChars trimChars_append)

/-- A text between two that neither begin nor end with blanks. -/
theorem Text.IsTrimmed.append {front back : List Char} (one : IsTrimmed front) (some : front ≠ [])
    (middle : List Char) (other : IsTrimmed back) (some' : back ≠ []) :
    IsTrimmed (front ++ (middle ++ back)) := by
  constructor
  · intro c mem
    obtain ⟨d, rest, rfl⟩ := List.exists_cons_of_ne_nil some
    exact one.head c mem
  · intro c mem
    rw [← List.append_assoc, List.getLast?_append, List.getLast?_eq_some_getLast some'] at mem
    exact other.last c (by rwa [List.getLast?_eq_some_getLast some'])

namespace ImportSyntax

theorem range_of_isPlain {c : Char} (plain : isPlain c = true) :
    36 ≤ c.val.toNat ∧ c.val.toNat ≤ 122 := by
  simp only [isPlain, Text.isAsciiLetter, Text.isAsciiDigit, Bool.or_eq_true, Bool.and_eq_true,
    decide_eq_true_eq, beq_iff_eq, Char.le_def, UInt32.le_iff_toNat_le] at plain
  rcases plain with ((((low | up) | digit) | rfl) | rfl)
  · exact ⟨Nat.le_trans (by decide) low.1, low.2⟩
  · exact ⟨Nat.le_trans (by decide) up.1, Nat.le_trans up.2 (by decide)⟩
  · exact ⟨Nat.le_trans (by decide) digit.1, Nat.le_trans digit.2 (by decide)⟩
  · decide
  · decide

theorem isAscii_of_isPlain {c : Char} (plain : isPlain c = true) : Text.isAscii c = true := by
  have range := range_of_isPlain plain
  simp only [Text.isAscii, decide_eq_true_eq]
  omega

theorem isNameChar_of_isPlain {c : Char} (plain : isPlain c = true) :
    Text.isNameChar c = true := by
  simpa [Text.isNameChar, Text.isWord, isAscii_of_isPlain plain, isPlain] using plain

theorem isBlank_of_isPlain {c : Char} (plain : isPlain c = true) : Text.isBlank c = false := by
  have range := range_of_isPlain plain
  have same : c.toNat = c.val.toNat := rfl
  simp [Text.isBlank]
  omega

theorem isPlain_of_isNameStart {c : Char} (start : Text.isNameStart c = true) :
    isPlain c = true := by
  simp only [Text.isNameStart, isPlain, Bool.or_eq_true] at start ⊢
  rcases start with (letter | underscore) | dollar
  · exact .inl (.inl (.inl letter))
  · exact .inl (.inr underscore)
  · exact .inr dollar

/-! ## Names -/

theorem exists_of_isIdentifier {word : List Char} (valid : isIdentifier word = true) :
    ∃ c rest, word = c :: rest ∧ Text.isNameStart c = true ∧
      ∀ d ∈ c :: rest, isPlain d = true := by
  cases word with
  | nil => simp [isIdentifier] at valid
  | cons c rest =>
    simp only [isIdentifier, Bool.and_eq_true, List.all_eq_true] at valid
    exact ⟨c, rest, rfl, valid.1,
      List.forall_mem_cons.mpr ⟨isPlain_of_isNameStart valid.1, valid.2⟩⟩

theorem isWordOf_of_isIdentifier {word : List Char} (valid : isIdentifier word = true) :
    Text.IsWordOf isPlain word := by
  obtain ⟨c, rest, rfl, -, letters⟩ := exists_of_isIdentifier valid
  exact ⟨List.cons_ne_nil c rest, letters⟩

namespace Name

variable (name : Name)

theorem exists_chars : ∃ c rest, name.chars = c :: rest ∧ Text.isNameStart c = true ∧
    ∀ d ∈ c :: rest, isPlain d = true :=
  exists_of_isIdentifier name.isIdentifier

theorem plain : ∀ c ∈ name.chars, isPlain c = true := by
  obtain ⟨c, rest, chars, -, plain⟩ := name.exists_chars
  exact chars ▸ plain

theorem chars_ne_nil : name.chars ≠ [] := by
  obtain ⟨c, rest, chars, -⟩ := name.exists_chars
  simp [chars]

theorem not_mem {c : Char} (other : isPlain c = false) : c ∉ name.chars := fun mem => by
  simp [name.plain c mem] at other

theorem isTrimmed : IsTrimmed name.chars where
  head c mem := isBlank_of_isPlain (name.plain c (List.mem_of_head? mem))
  last c mem := isBlank_of_isPlain (name.plain c (List.mem_of_getLast? mem))

theorem ofList_chars : String.ofList name.chars = name.text :=
  String.ofList_toList

/-- A name is the longest plain word where it stands. -/
theorem takeWhile_isPlain {rest : List Char} (stops : ∀ c ∈ rest.head?, isPlain c = false) :
    (name.chars ++ rest).takeWhile isPlain = name.chars :=
  Text.takeWhile_append_of_stops name.plain stops

theorem chars_ne {word : String} (mem : word ∈ reserved) : name.chars ≠ word.toList := fun same =>
  name.free (String.toList_inj.mp same ▸ mem)

/-- A name does not begin with the word `type` and a blank. -/
theorem dropWord?_type {rest : List Char} (stops : ∀ c ∈ rest.head?, isPlain c = false) :
    Text.dropWord? "type ".toList (name.chars ++ rest) = none := by
  cases begins : Text.dropWord? "type ".toList (name.chars ++ rest) with
  | none => rfl
  | some after =>
    have word : (name.chars ++ rest).takeWhile isPlain = "type".toList := by
      rw [Text.eq_append_of_dropWord? begins]
      rfl
    rw [name.takeWhile_isPlain stops] at word
    exact absurd word (name.chars_ne (by decide))

end Name

/-! ## Entries -/

namespace Entry

variable (entry : Entry)

theorem tail_stops : ∀ c ∈ entry.tail.head?, isPlain c = false := by
  unfold tail
  split
  · simp
  · intro c mem
    obtain rfl : ' ' = c := by simpa using mem
    rfl

theorem isTrimmed_body : IsTrimmed (entry.name.chars ++ entry.tail) := by
  unfold tail
  split
  · rw [List.append_nil]
    exact entry.name.isTrimmed
  · next asName _ =>
    exact entry.name.isTrimmed.append entry.name.chars_ne_nil _ asName.isTrimmed
      asName.chars_ne_nil

theorem isTrimmed : IsTrimmed entry.chars := by
  unfold chars typePrefix
  split
  · have word : IsTrimmed "type".toList := ⟨by decide, by decide⟩
    exact word.append (by decide) [' '] entry.isTrimmed_body (by simp [entry.name.chars_ne_nil])
  · exact entry.isTrimmed_body

/-- The name and the alias are what stands before and behind ` as `. -/
theorem cut_body : Text.cutAtWord? " as ".toList (entry.name.chars ++ entry.tail) =
    entry.asName.map fun asName => (entry.name.chars, asName.chars) := by
  have noBlank : ' ' ∉ entry.name.chars := entry.name.not_mem (by decide)
  unfold tail
  cases entry.asName with
  | none =>
    simp only [List.append_nil]
    exact Text.cutAtWord?_of_not_mem noBlank "as ".toList
  | some asName => exact Text.cutAtWord?_append noBlank "as ".toList asName.chars

/-- An entry is read with blanks around it. -/
theorem parse?_chars {front back : List Char} (blank : ∀ c ∈ front, Text.isBlank c = true)
    (blank' : ∀ c ∈ back, Text.isBlank c = true) :
    NamedImport.parse? (front ++ (entry.chars ++ back)) = some entry.named := by
  have trimmed := trimChars_append blank entry.isTrimmed blank'
  have some : (entry.name.chars ++ entry.tail).isEmpty = false := by
    simp [entry.name.chars_ne_nil]
  have words : Text.dropWord? "type ".toList entry.chars =
      if entry.typeOnly then .some (entry.name.chars ++ entry.tail) else none := by
    unfold chars typePrefix
    split
    · exact Text.dropWord?_append _ _
    · exact entry.name.dropWord?_type entry.tail_stops
  have bare : entry.typeOnly = false → entry.chars = entry.name.chars ++ entry.tail := by
    intro typeOnly
    simp [chars, typePrefix, typeOnly]
  have cut := entry.cut_body
  unfold NamedImport.parse?
  cases other : entry.asName with
  | none =>
    have read : entry.named = ⟨String.ofList (entry.name.chars ++ entry.tail), none,
        entry.typeOnly⟩ := by
      simp [named, tail, other, entry.name.ofList_chars]
    rw [other, Option.map_none] at cut
    rw [read]
    cases typeOnly : entry.typeOnly with
    | true =>
      simp only [trimmed, words, typeOnly, if_true, entry.isTrimmed_body.trimChars_eq, some, cut,
        Bool.false_eq_true, if_false]
    | false =>
      simp only [trimmed, words, typeOnly, Bool.false_eq_true, if_false]
      simp only [bare typeOnly, some, cut, Bool.false_eq_true, if_false]
  | some asName =>
    have read : entry.named = ⟨String.ofList (trimChars entry.name.chars),
        String.ofList (trimChars asName.chars), entry.typeOnly⟩ := by
      simp [named, other, entry.name.isTrimmed.trimChars_eq, asName.isTrimmed.trimChars_eq,
        Name.ofList_chars]
    rw [other, Option.map_some] at cut
    rw [read]
    cases typeOnly : entry.typeOnly with
    | true =>
      simp only [trimmed, words, typeOnly, if_true, entry.isTrimmed_body.trimChars_eq, some, cut,
        Bool.false_eq_true, if_false]
    | false =>
      simp only [trimmed, words, typeOnly, Bool.false_eq_true, if_false]
      simp only [bare typeOnly, some, cut, Bool.false_eq_true, if_false]

theorem parse?_chars_end {front : List Char} (blank : ∀ c ∈ front, Text.isBlank c = true) :
    NamedImport.parse? (front ++ entry.chars) = some entry.named := by
  have whole := entry.parse?_chars blank (List.forall_mem_nil _)
  rwa [List.append_nil] at whole

theorem not_mem {c : Char} (other : isPlain c = false) (ink : c ≠ ' ') : c ∉ entry.chars := by
  have spaces : ∀ {word : String}, (word.toList.all fun d => isPlain d || d == ' ') = true →
      c ∉ word.toList := by
    intro word each mem
    have plain := List.all_eq_true.mp each c mem
    simp [other, ink] at plain
  have front : c ∉ typePrefix entry.typeOnly := by
    unfold typePrefix
    split
    · exact spaces (by decide)
    · simp
  have back : c ∉ entry.tail := by
    unfold tail
    split
    · simp
    · next asName _ =>
      rw [List.mem_append, not_or]
      exact ⟨spaces (by decide), asName.not_mem other⟩
  rw [chars, List.mem_append, List.mem_append, not_or, not_or]
  exact ⟨front, entry.name.not_mem other, back⟩

end Entry

/-! ## Braces -/

namespace Braces

theorem parseList_of_not_mem {piece : List Char} (whole : ',' ∉ piece) :
    NamedImport.parseList piece = (NamedImport.parse? piece).toList := by
  rw [NamedImport.parseList, Text.splitChars_of_not_mem whole]
  cases parsed : NamedImport.parse? piece <;> simp [parsed]

theorem parseList_append {piece : List Char} (whole : ',' ∉ piece) (rest : List Char) :
    NamedImport.parseList (piece ++ ',' :: rest) =
      (NamedImport.parse? piece).toList ++ NamedImport.parseList rest := by
  rw [← parseList_of_not_mem whole]
  simp only [NamedImport.parseList, Text.splitChars_append, List.filterMap_append]

theorem blank_of_replicate {n : Nat} : ∀ c ∈ List.replicate n ' ', Text.isBlank c = true := by
  intro c mem
  obtain rfl := (List.mem_replicate.mp mem).2
  decide

theorem not_mem_of_blank {front : List Char} (blank : ∀ c ∈ front, Text.isBlank c = true) {c : Char}
    (ink : Text.isBlank c = false) : c ∉ front := fun mem => by
  simp [blank c mem] at ink

theorem parseList_oneLine {front : List Char} (blank : ∀ c ∈ front, Text.isBlank c = true)
    (first : Entry) (more : List Entry) :
    NamedImport.parseList (front ++ (first.chars ++
      (more.flatMap (fun entry => ", ".toList ++ entry.chars) ++ [' ']))) =
        (first :: more).map (·.named) := by
  have noComma : ∀ {front : List Char}, (∀ c ∈ front, Text.isBlank c = true) →
      ∀ entry : Entry, ',' ∉ front ++ entry.chars := by
    intro front blank entry
    rw [List.mem_append, not_or]
    exact ⟨not_mem_of_blank blank (by decide), entry.not_mem (by decide) (by decide)⟩
  have one : ∀ c ∈ [' '], Text.isBlank c = true := by decide
  induction more generalizing front first with
  | nil =>
    have whole : ',' ∉ front ++ (first.chars ++ [' ']) := by
      rw [← List.append_assoc, List.mem_append, not_or]
      exact ⟨noComma blank first, by decide⟩
    rw [List.flatMap_nil, List.nil_append, parseList_of_not_mem whole, first.parse?_chars blank one]
    rfl
  | cons next more ih =>
    have split : front ++ (first.chars ++ ((next :: more).flatMap
        (fun entry => ", ".toList ++ entry.chars) ++ [' '])) =
        (front ++ first.chars) ++ ',' :: ([' '] ++ (next.chars ++
          (more.flatMap (fun entry => ", ".toList ++ entry.chars) ++ [' ']))) := by
      simp
    have piece := first.parse?_chars_end blank
    rw [split, parseList_append (noComma blank first), piece, ih one next]
    rfl

theorem parseList_perLine (indent : Nat) (entries : List Entry) :
    NamedImport.parseList (entries.flatMap
      (fun entry => '\n' :: (List.replicate indent ' ' ++ entry.chars ++ [','])) ++ ['\n']) =
        entries.map (·.named) := by
  induction entries with
  | nil =>
    have nothing : NamedImport.parseList ['\n'] = [] := by decide
    exact nothing
  | cons entry entries ih =>
    let front := '\n' :: List.replicate indent ' '
    have blank : ∀ c ∈ front, Text.isBlank c = true :=
      List.forall_mem_cons.mpr ⟨by decide, blank_of_replicate⟩
    have noComma : ',' ∉ front ++ entry.chars := by
      rw [List.mem_append, not_or]
      exact ⟨not_mem_of_blank blank (by decide), entry.not_mem (by decide) (by decide)⟩
    have piece := entry.parse?_chars_end blank
    have split : (entry :: entries).flatMap
        (fun entry => '\n' :: (List.replicate indent ' ' ++ entry.chars ++ [','])) ++ ['\n'] =
        (front ++ entry.chars) ++ ',' :: (entries.flatMap
          (fun entry => '\n' :: (List.replicate indent ' ' ++ entry.chars ++ [','])) ++ ['\n']) := by
      simp [front]
    rw [split, parseList_append noComma, piece, ih]
    rfl

theorem parseList_inner (braces : Braces) :
    NamedImport.parseList braces.inner = braces.named := by
  unfold inner named entries
  split
  · have one : ∀ c ∈ [' '], Text.isBlank c = true := by decide
    have read := parseList_oneLine one braces.first braces.more
    simpa using read
  · next indent _ => exact parseList_perLine indent _

theorem not_mem_inner (braces : Braces) {c : Char} (other : isPlain c = false)
    (ink : Text.isBlank c = false) (noComma : c ≠ ',') : c ∉ braces.inner := by
  have noBlank : c ≠ ' ' := by rintro rfl; exact absurd ink (by decide)
  have noFeed : c ≠ '\n' := by rintro rfl; exact absurd ink (by decide)
  have each : ∀ entry : Entry, c ∉ entry.chars := fun entry => entry.not_mem other noBlank
  unfold inner
  split
  · simp [noBlank, noComma, each]
  · simp [noBlank, noFeed, noComma, each]

theorem isTrimmed (braces : Braces) : IsTrimmed braces.chars where
  head c mem := by
    obtain rfl : '{' = c := by simpa [chars] using mem
    decide
  last c mem := by
    rw [chars, ← List.cons_append, List.getLast?_concat] at mem
    obtain rfl := Option.some.inj mem
    decide

end Braces

/-! ## Clauses -/

namespace Binding

variable (binding : Binding)

theorem isTrimmed : IsTrimmed binding.chars := by
  cases binding with
  | wholeModule name =>
    have star : IsTrimmed "*".toList := ⟨by decide, by decide⟩
    exact star.append (by decide) " as ".toList name.isTrimmed name.chars_ne_nil
  | named braces => exact braces.isTrimmed

theorem chars_ne_nil : binding.chars ≠ [] := by
  cases binding with
  | wholeModule name => exact List.cons_ne_nil '*' _
  | named braces => exact List.cons_ne_nil '{' _

end Binding

theorem Clause.isTrimmed (clause : Clause) : IsTrimmed clause.chars := by
  cases clause with
  | default name => exact name.isTrimmed
  | only binding => exact binding.isTrimmed
  | both name binding =>
    rw [chars, List.append_assoc]
    exact name.isTrimmed.append name.chars_ne_nil _ binding.isTrimmed binding.chars_ne_nil

theorem addBinding_blank (clause : ImportClause) {text : List Char}
    (blank : ∀ c ∈ text, Text.isBlank c = true) : clause.addBinding text = clause := by
  rw [ImportClause.addBinding, Text.trimChars_blank blank]

theorem addBinding_name (clause : ImportClause) (name : Name) :
    clause.addBinding name.chars = { clause with default := some name.text } := by
  obtain ⟨c, rest, chars, start, -⟩ := name.exists_chars
  have noStar : c ≠ '*' := by
    rintro rfl
    exact absurd start (by decide)
  have text := name.ofList_chars
  unfold ImportClause.addBinding
  rw [name.isTrimmed.trimChars_eq]
  rw [chars] at text ⊢
  split
  · next none => exact absurd none (List.cons_ne_nil c rest)
  · next same => exact absurd (List.cons.inj same).1 noStar
  · rw [text]

theorem addBinding_wholeModule (clause : ImportClause) {front : List Char}
    (blank : ∀ c ∈ front, Text.isBlank c = true) (name : Name) :
    clause.addBinding (front ++ "* as ".toList ++ name.chars) =
      { clause with wholeModule := some name.text } := by
  have trimmed := Text.trimChars_append_end blank (Binding.wholeModule name).isTrimmed
  have star : (Binding.wholeModule name).chars = '*' :: (" as ".toList ++ name.chars) := rfl
  have one : ∀ c ∈ [' '], Text.isBlank c = true := by decide
  have behind : IsTrimmed ("as ".toList ++ name.chars) := by
    have word : IsTrimmed "as".toList := ⟨by decide, by decide⟩
    exact word.append (by decide) [' '] name.isTrimmed name.chars_ne_nil
  have rest : trimChars (" as ".toList ++ name.chars) = "as ".toList ++ name.chars :=
    @Text.trimChars_append_end [' '] _ one behind
  have dropped : ∀ n, Text.dropWords "as".toList (n + 2) ("as ".toList ++ name.chars) =
      ' ' :: name.chars := fun n => rfl
  have last : trimChars (' ' :: name.chars) = name.chars :=
    @Text.trimChars_append_end [' '] _ one name.isTrimmed
  have length : ("as ".toList ++ name.chars).length = name.chars.length + 1 + 2 := by
    simp
  unfold ImportClause.addBinding
  rw [List.append_assoc, ← Binding.chars_wholeModule, trimmed, star]
  simp only [rest, length, dropped, last]
  split
  · next none => exact absurd none name.chars_ne_nil
  · rw [name.ofList_chars]

/-- The names before the braces, and the entries between them. -/
theorem parse_of_braces {head : List Char} (noBrace : '{' ∉ head) (braces : Braces)
    (trimmed : IsTrimmed (head ++ braces.chars)) :
    ImportClause.parse (head ++ braces.chars) =
      { (Text.splitChars ',' head).foldl ImportClause.addBinding {} with named := braces.named } := by
  have bare : ∀ c ∈ head, (c == '{') = false := by
    intro c mem
    simp only [beq_eq_false_iff_ne]
    rintro rfl
    exact noBrace mem
  have cut : Text.cutAt? (· == '{') (head ++ braces.chars) = some (head, braces.inner ++ ['}']) :=
    Text.cutAt?_append bare rfl _
  have entries : (braces.inner ++ ['}']).takeWhile (· != '}') = braces.inner := by
    refine Text.takeWhile_append_of_stops (fun c mem => ?_) (by simp)
    simp only [bne_iff_ne]
    rintro rfl
    exact braces.not_mem_inner (by decide) (by decide) (by decide) mem
  unfold ImportClause.parse
  simp only [trimmed.trimChars_eq, cut, entries, braces.parseList_inner]

theorem parse_of_no_braces {text : List Char} (noBrace : '{' ∉ text) (trimmed : IsTrimmed text) :
    ImportClause.parse text =
      { (Text.splitChars ',' text).foldl ImportClause.addBinding {} with named := [] } := by
  have none : Text.cutAt? (· == '{') text = none := by
    refine Text.cutAt?_eq_none fun c mem => ?_
    simp only [beq_eq_false_iff_ne]
    rintro rfl
    exact noBrace mem
  unfold ImportClause.parse
  simp only [trimmed.trimChars_eq, none]

/-- A default name and what stands behind the comma are the pieces of what they make up. -/
theorem splitChars_behind (name : Name) {rest : List Char} (noComma : ',' ∉ rest) :
    Text.splitChars ',' (name.chars ++ ", ".toList ++ rest) = [name.chars, ' ' :: rest] := by
  have split : name.chars ++ ", ".toList ++ rest = name.chars ++ ',' :: (' ' :: rest) := by simp
  have noComma' : ',' ∉ ' ' :: rest := by simp [noComma]
  rw [split, Text.splitChars_append, Text.splitChars_of_not_mem (name.not_mem (by decide)),
    Text.splitChars_of_not_mem noComma']
  rfl

theorem Binding.not_mem_wholeModule (name : Name) :
    ',' ∉ (wholeModule name).chars ∧ '{' ∉ (wholeModule name).chars := by
  have comma : ',' ∉ name.chars := name.not_mem (by decide)
  have brace : '{' ∉ name.chars := name.not_mem (by decide)
  simp [chars_wholeModule, comma, brace]

theorem Clause.parse_chars (clause : Clause) : ImportClause.parse clause.chars = clause.bound := by
  have trimmed := clause.isTrimmed
  have brace : ∀ name : Name, '{' ∉ name.chars := fun name => name.not_mem (by decide)
  have blank : ∀ c ∈ [' '], Text.isBlank c = true := by decide
  cases clause with
  | default name =>
    have pieces : Text.splitChars ',' name.chars = [name.chars] :=
      Text.splitChars_of_not_mem (name.not_mem (by decide))
    rw [chars] at trimmed ⊢
    rw [parse_of_no_braces (brace name) trimmed, pieces]
    simp [addBinding_name, bound]
  | only binding =>
    cases binding with
    | wholeModule name =>
      obtain ⟨noComma, noBrace⟩ := Binding.not_mem_wholeModule name
      have star := addBinding_wholeModule {} (List.forall_mem_nil _) name
      rw [chars] at trimmed ⊢
      rw [parse_of_no_braces noBrace trimmed, Text.splitChars_of_not_mem noComma, List.foldl_cons,
        List.foldl_nil, Binding.chars_wholeModule]
      exact congrArg ({ · with named := [] }) star
    | named braces =>
      have read := parse_of_braces List.not_mem_nil braces trimmed
      have nothing : (Text.splitChars ',' []).foldl ImportClause.addBinding {} = {} := by decide
      rw [nothing] at read
      exact read
  | both name binding =>
    cases binding with
    | wholeModule other =>
      obtain ⟨noComma, noBrace⟩ := Binding.not_mem_wholeModule other
      have noBrace' : '{' ∉ name.chars ++ ", ".toList ++ (Binding.wholeModule other).chars := by
        simp [brace, noBrace]
      have behind := addBinding_wholeModule { default := some name.text } blank other
      rw [chars] at trimmed ⊢
      rw [parse_of_no_braces noBrace' trimmed, splitChars_behind name noComma, List.foldl_cons,
        List.foldl_cons, List.foldl_nil, addBinding_name, Binding.chars_wholeModule]
      exact congrArg ({ · with named := [] }) behind
    | named braces =>
      have noBrace : '{' ∉ name.chars ++ ", ".toList := by simp [brace]
      have pieces := splitChars_behind name (List.not_mem_nil (a := ','))
      rw [List.append_nil] at pieces
      rw [chars, Binding.chars_named] at trimmed ⊢
      rw [parse_of_braces noBrace braces trimmed, pieces]
      simp [addBinding_name, addBinding_blank _ blank, bound, bindWith]

end ImportSyntax

end ChangeImpact
