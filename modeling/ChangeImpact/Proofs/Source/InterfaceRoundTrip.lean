import ChangeImpact.Proofs.Source.DeclarationText
import ChangeImpact.Proofs.Source.InterfaceSyntax
import ChangeImpact.Source.Extraction

/-!
# Reading the interface that was written

The declaration is found at the start of the text and nowhere else, its block ends at the last
brace, a scan of the block finds one member on each line, and the member is read as the field it is.
-/

namespace ChangeImpact

namespace InterfaceSyntax

open Declaration Pattern

/-! ## Fields -/

/-- A scan of a type stands inside of something wherever there is a separator. -/
theorem IsTypeText.outside_eq_false {text : List Char} (isType : IsTypeText text)
    (before : List Char) (c : Char) (later : List Char) (split : text = before ++ c :: later)
    (separates : Text.isMemberSeparator c = true) :
    (Text.Nesting.after ⟨0, 0, ' '⟩ before).outside = false := by
  have inside := isType.inside before.length (by simp [split])
  have noFeed : c ≠ '\n' := by
    rintro rfl
    exact isType.noFeed (by simp [split])
  have within : ∀ pair ∈ Text.brackets, before.count pair.2 ≤ before.count pair.1 :=
    fun pair mem => (isType.paired pair mem).1 before ⟨c :: later, split.symm⟩
  rw [Text.Nesting.outside_after_eq_false_iff within]
  have separator : c = ';' ∨ c = ',' := by
    simpa [Text.isMemberSeparator, noFeed] using separates
  simpa [split, separator] using inside

namespace Field

variable (field : Field)

theorem isWord : Text.IsWordOf ImportSyntax.isPlain field.name.toList :=
  ImportSyntax.isWordOf_of_isIdentifier field.isIdentifier

/-- Behind the name of a field stands a question mark or a colon. -/
theorem exists_behind_name : ∃ c more, field.mark ++ ": ".toList = c :: more ∧
    (c = '?' ∨ c = ':') := by
  unfold mark
  cases field.optional with
  | true => exact ⟨'?', ": ".toList, rfl, .inl rfl⟩
  | false => exact ⟨':', [' '], rfl, .inr rfl⟩

theorem mem_front {c : Char} (mem : c ∈ field.front) :
    ImportSyntax.isPlain c = true ∨ c ∈ ['?', ':', ' '] := by
  rcases List.mem_append.mp mem with name | rest
  · exact .inl (field.isWord.letters c name)
  · refine .inr ?_
    unfold mark at rest
    split at rest
    · exact rest
    · exact List.mem_cons_of_mem '?' rest

theorem bare_front : ∀ c ∈ field.front,
    Text.isBracket c = false ∧ Text.isMemberSeparator c = false := by
  intro c mem
  rcases field.mem_front mem with plain | isMark
  · have others : ∀ d ∈ ['{', '}', '[', ']', '(', ')', '<', '>', ';', ',', '\n'],
        ImportSyntax.isPlain d = false := by decide
    have other : c ∉ ['{', '}', '[', ']', '(', ')', '<', '>', ';', ',', '\n'] := fun isOther => by
      simp [others c isOther] at plain
    simp only [List.mem_cons, List.not_mem_nil, or_false, not_or] at other
    simp [Text.isBracket, Text.isMemberSeparator, other]
  · simp only [List.mem_cons, List.not_mem_nil, or_false] at isMark
    rcases isMark with rfl | rfl | rfl <;> decide

theorem exists_chars : ∃ c text, field.chars = c :: text ∧ ImportSyntax.isPlain c = true := by
  obtain ⟨c, letters, name, -, plain⟩ := ImportSyntax.exists_of_isIdentifier field.isIdentifier
  exact ⟨c, _, by rw [chars, front, name]; rfl, plain c List.mem_cons_self⟩

theorem not_mem_front {c : Char} (other : ImportSyntax.isPlain c = false)
    (noMark : c ∉ ['?', ':', ' ']) : c ∉ field.front := fun mem => by
  rcases field.mem_front mem with plain | isMark
  · simp [plain] at other
  · exact noMark isMark

theorem isTrimmed_chars : Text.IsTrimmed field.chars := by
  have name : Text.IsTrimmed field.name.toList :=
    ⟨fun c mem => ImportSyntax.isBlank_of_isPlain (field.isWord.letters c (List.mem_of_head? mem)),
      fun c mem =>
        ImportSyntax.isBlank_of_isPlain (field.isWord.letters c (List.mem_of_getLast? mem))⟩
  have whole := name.append field.isWord.nonempty (field.mark ++ ": ".toList) field.isType.trimmed
    field.isType.nonempty
  rwa [chars, front, List.append_assoc]

theorem wordThenBlank_eq_false {indent : List Char} (indents : ∀ c ∈ indent, Text.isIndent c = true)
    (rest : List Char) : wordThenBlank (indent ++ (field.chars ++ rest)) = false := by
  obtain ⟨c, more, behind, isMark⟩ := field.exists_behind_name
  have shape : field.chars ++ rest =
      field.name.toList ++ c :: (more ++ field.typeName.toList ++ rest) := by
    rw [chars, front, behind]
    simp
  have other : ImportSyntax.isPlain c = false := by rcases isMark with rfl | rfl <;> decide
  rw [shape, wordThenBlank_append indents field.isWord other]
  rcases isMark with rfl | rfl <;> decide

theorem prefers_type {trace : Trace}
    (text : trace.place.rest = ':' :: ' ' :: field.typeName.toList) :
    (all [blanks, char ':', blanks, group 3 (many1 fun _ => true), anchor .textEnd]).Prefers trace
      (((trace.past ": ".toList field.typeName.toList).past field.typeName.toList []).closing 3
        (trace.past ": ".toList field.typeName.toList).place) := by
  obtain ⟨c, letters, type⟩ := List.exists_cons_of_ne_nil field.isType.nonempty
  have ink : Text.isBlank c = false := field.isType.trimmed.head c (by rw [type]; rfl)
  rw [type] at text ⊢
  let colon := trace.past [':'] (' ' :: c :: letters)
  let typed := colon.past [' '] (c :: letters)
  have nothing : blanks.Prefers trace trace := prefers_many_nil (by
    rw [text]
    rintro d ⟨⟩
    decide)
  have mark : (char ':').Prefers trace colon := prefers_char text
  have space : blanks.Prefers colon typed := ImportSyntax.prefers_blanks rfl ink
  have whole : (many1 fun _ => true).Prefers typed (typed.past (c :: letters) []) :=
    prefers_many1 (by simp [typed, Trace.past]) (by simp) (by simp)
  have last : (all [anchor .textEnd]).Prefers
      ((typed.past (c :: letters) []).closing 3 typed.place) _ := prefers_textEnd rfl
  have same : typed = trace.past ": ".toList (c :: letters) := by
    simp only [typed, colon, Trace.past, Cursor.past_past]
    rfl
  rw [← same]
  exact nothing.all_cons (mark.all_cons (space.all_cons ((whole.group 3).all_cons last)))

/-- A field that is called `readonly` is not taken for one that is. -/
theorem prefers_no_readonly :
    (ExportRef.modifier "readonly").Prefers ⟨⟨none, field.chars, 0⟩, []⟩
      ⟨⟨none, field.chars, 0⟩, []⟩ := by
  refine prefers_modifier_absent fun c more same => ?_
  have same : field.chars = [] ++ ("readonly".toList ++ c :: more) := same
  have quiet := field.wordThenBlank_eq_false (List.forall_mem_nil _) []
  rw [List.nil_append, List.append_nil, same] at quiet
  cases blank : Text.isBlank c with
  | false => rfl
  | true =>
    rw [wordThenBlank_append (List.forall_mem_nil _) (by decide)
      (ImportSyntax.isPlain_of_isBlank blank), blank] at quiet
    exact quiet

theorem exists_match_property : ∃ found, property.matchFront? field.chars = some found ∧
    nameOf found = field.name ∧ found.part 3 = field.typeName.toList ∧
      found.has 2 = field.optional := by
  let behind := field.mark ++ ": ".toList ++ field.typeName.toList
  let start : Trace := ⟨⟨none, field.chars, 0⟩, []⟩
  let named := (start.past field.name.toList behind).closing 1 start.place
  have bare := field.prefers_no_readonly
  have text : start.place.rest = field.name.toList ++ behind := by
    show field.chars = _
    rw [chars, front, List.append_assoc]
  have stops : ∀ c ∈ behind.head?, Text.isNameChar c = false := by
    obtain ⟨c, more, mark, isMark⟩ := field.exists_behind_name
    simp only [behind, mark]
    rintro d ⟨⟩
    rcases isMark with rfl | rfl <;> decide
  have name : (group 1 identifier).Prefers start named :=
    (prefers_identifier field.isIdentifier text stops).group 1
  have namePart : start.place.textTo (start.past field.name.toList behind).place =
      field.name.toList := Cursor.textTo_past text
  have typePart (trace : Trace) : (trace.past ": ".toList field.typeName.toList).place.textTo
      ((trace.past ": ".toList field.typeName.toList).past field.typeName.toList []).place =
        field.typeName.toList := Cursor.textTo_past (List.append_nil _).symm
  cases optional : field.optional with
  | true =>
    have rest : named.place.rest = '?' :: (":".toList ++ ' ' :: field.typeName.toList) := by
      show behind = _
      simp [behind, mark, optional]
    have question := (((prefers_char rest).group 2).opt).all_cons (field.prefers_type rfl)
    exact ⟨_, (bare.all_cons (name.all_cons question)).matchAt?,
      (congrArg String.ofList namePart).trans String.ofList_toList, typePart _, rfl⟩
  | false =>
    have rest : named.place.rest = ':' :: ' ' :: field.typeName.toList := by
      show behind = _
      simp [behind, mark, optional]
    have none : (group 2 (char '?')).results named = [] := by
      simp [results, char, rest]
    have colon := (prefers_opt_of_nil none).all_cons (field.prefers_type rest)
    exact ⟨_, (bare.all_cons (name.all_cons colon)).matchAt?,
      (congrArg String.ofList namePart).trans String.ofList_toList, typePart _, rfl⟩

end Field

/-! ## The declaration -/

namespace Interface

variable (interface : Interface)

theorem isWord : Text.IsWordOf ImportSyntax.isPlain interface.name.toList :=
  ImportSyntax.isWordOf_of_isIdentifier interface.isIdentifier

def named : List Char :=
  interface.name.toList ++ ' ' :: '{' :: (interface.body ++ interface.closing)

theorem chars_eq : interface.chars =
    "export".toList ++ ' ' :: ("interface".toList ++ ' ' :: interface.named) := by
  unfold chars header named
  generalize "export".toList = one
  generalize "interface".toList = other
  simp [body, Text.withFeeds]

theorem isBlank_head?_named : ∀ c ∈ interface.named.head?, Text.isBlank c = false := by
  obtain ⟨c, letters, name⟩ := List.exists_cons_of_ne_nil interface.isWord.nonempty
  rw [named, name]
  rintro _ ⟨⟩
  exact ImportSyntax.isBlank_of_isPlain (interface.isWord.letters c (name ▸ List.mem_cons_self))

/-- The declaration is matched up to its name. -/
theorem exists_match_interfaceDecl :
    ∃ found, interfaceDecl.matchAt? ⟨none, interface.chars, 0⟩ = some found ∧
      nameOf found = interface.name ∧
        found.stop.rest = ' ' :: '{' :: (interface.body ++ interface.closing) := by
  let behind := ' ' :: '{' :: (interface.body ++ interface.closing)
  let declared := "interface".toList ++ ' ' :: interface.named
  let start : Trace := ⟨⟨none, interface.chars, 0⟩, []⟩
  let exported := start.past ("export".toList ++ [' ']) declared
  let keyword := exported.past "interface".toList (' ' :: interface.named)
  let spaced := keyword.past [' '] interface.named
  have text : start.place.rest = "export".toList ++ ' ' :: declared := interface.chars_eq
  have begins : indentedLine.Prefers start start :=
    ImportSyntax.prefers_indentedLine text (by simp) (by decide)
  have first : (ExportRef.modifier "export").Prefers start exported := prefers_modifier text (by
    rintro c ⟨⟩
    decide)
  have second : (all [ExportRef.modifier "declare"]).Prefers exported exported :=
    prefers_modifier_absent fun c more same => absurd (List.cons.inj same).1 (by decide)
  have words : (all (["export", "declare"].map ExportRef.modifier)).Prefers start exported :=
    first.all_cons second
  have third : (lit "interface").Prefers exported keyword := prefers_lit rfl
  have space : blanks1.Prefers keyword spaced :=
    ImportSyntax.prefers_blanks1 rfl interface.isBlank_head?_named
  have name : identifier.Prefers spaced (spaced.past interface.name.toList behind) :=
    prefers_identifier interface.isIdentifier rfl (by
      rintro c ⟨⟩
      decide)
  have last : (all [group 1 identifier]).Prefers spaced _ := name.group 1
  have way : interfaceDecl.Prefers start _ :=
    begins.all_cons (words.all_cons (third.all_cons (space.all_cons last)))
  have part : spaced.place.textTo (spaced.past interface.name.toList behind).place =
      interface.name.toList := Cursor.textTo_past rfl
  exact ⟨_, way.matchAt?, (congrArg String.ofList part).trans String.ofList_toList, rfl⟩

theorem matchAt?_typeDecl : typeDecl.matchAt? ⟨none, interface.chars, 0⟩ = none := by
  have plain : ∀ word ∈ ["type", "export", "declare"],
      Text.IsWordOf ImportSyntax.isPlain word.toList := by decide
  have nothing : typeDecl.results ⟨⟨none, interface.chars, 0⟩, []⟩ = [] := by
    rw [typeDecl, results_all_cons, List.flatMap_eq_nil_iff]
    intro middle mem
    have introduces := (introduces_of_mem_named plain mem).2
    have text : interface.chars.dropWhile Text.isIndent =
        "export".toList ++ ' ' :: ("interface".toList ++ ' ' :: interface.named) := by
      rw [chars_eq]
      exact @Text.dropWhile_append_of_stops Text.isIndent [] _ (List.forall_mem_nil _) (by
        rintro c ⟨⟩
        decide)
    rw [text] at introduces
    rcases introduces.of_word plain (by decide) (by rintro c ⟨⟩; decide) with isType | ⟨-, behind⟩
    · exact absurd isType (by decide)
    · rcases behind.of_word plain (by decide) interface.isBlank_head?_named with
        isType | ⟨isModifier, -⟩
      · exact absurd isType (by decide)
      · exact absurd isModifier (by decide)
  rw [matchAt?, nothing]
  rfl

/-! ## The search -/

theorem feedFree : Text.FeedFree (interface.header :: interface.fields.map interface.line) := by
  refine List.forall_mem_cons.mpr ⟨?_, fun line mem => ?_⟩
  · have noFeed : '\n' ∉ interface.name.toList := fun feed =>
      absurd (interface.isWord.letters '\n' feed) (by decide)
    have first : '\n' ∉ "export".toList := by decide
    have second : '\n' ∉ "interface".toList := by decide
    unfold header
    generalize "export".toList = one at *
    generalize "interface".toList = other at *
    simp [first, second, noFeed]
  · obtain ⟨field, -, rfl⟩ := List.mem_map.mp mem
    have front : '\n' ∉ field.front := field.not_mem_front (by decide) (by decide)
    simp [Interface.line, Field.chars, front, field.isType.noFeed]

theorem wordless : Wordless interface.chars := by
  have indents : ∀ c ∈ List.replicate interface.indent ' ', Text.isIndent c = true := by
    intro c mem
    obtain rfl := (List.mem_replicate.mp mem).2
    rfl
  have quiet : ∀ line ∈ interface.fields.map interface.line, ∀ after,
      wordThenBlank (line ++ '\n' :: after) = false := by
    intro line mem after
    obtain ⟨field, -, rfl⟩ := List.mem_map.mp mem
    have begun := field.wordThenBlank_eq_false indents (';' :: '\n' :: after)
    simpa [Interface.line] using begun
  have brace : ∀ after, wordThenBlank ('}' :: after) = false := fun _ => rfl
  cases feed : interface.feedAtEnd with
  | false =>
    rw [chars, closing, feed]
    exact wordless_withFeeds interface.feedFree (by decide) quiet (brace _)
  | true =>
    have shape : interface.chars = Text.withFeeds
        (interface.header :: (interface.fields.map interface.line ++ [['}']])) [] := by
      simp [chars, closing, feed, Text.withFeeds]
    rw [shape]
    refine wordless_withFeeds ?_ List.not_mem_nil ?_ rfl
    · rw [← List.cons_append]
      exact List.forall_mem_append.mpr ⟨interface.feedFree, by simp⟩
    · exact List.forall_mem_append.mpr ⟨quiet, by simp [brace]⟩

theorem shapeBody?_chars (admitted : String → Bool) (admits : admitted interface.name = true) :
    shapeBody? interface.name interface.chars admitted =
      Text.firstBlock (' ' :: '{' :: (interface.body ++ interface.closing)) := by
  obtain ⟨found, here, name, rest⟩ := interface.exists_match_interfaceDecl
  have some : interface.chars ≠ [] := by
    rw [chars_eq]
    exact List.append_ne_nil_of_left_ne_nil (by decide) _
  have interfaces : interfaceDecl.allMatches interface.chars = [found] := by
    rw [beginsWithWord_interfaceDecl.allMatches_eq interface.wordless some, here]
    rfl
  have types : typeDecl.allMatches interface.chars = [] := by
    rw [beginsWithWord_typeDecl.allMatches_eq interface.wordless some, interface.matchAt?_typeDecl]
    rfl
  have listed : ([found] ++ []).filter (fun decl => admitted (nameOf decl)) = [found] := by
    simp [name, admits]
  have sorted : Ascending.sortByKey (·.stop.offset) [found] = [found] :=
    Ascending.sortByKey_eq_of_perm (List.Perm.refl _) (List.pairwise_singleton _ _)
  rw [← rest, shapeBody?, interfaces, types, listed, sorted]
  simp [name]

/-! ## The block -/

theorem paired_line (field : Field) : Text.Paired '{' '}' (interface.line field) := by
  have bare {text : List Char} (opening : '{' ∉ text) (closing : '}' ∉ text) :
      Text.Paired '{' '}' text := Text.paired_of_not_mem opening closing
  have front := bare (field.not_mem_front (by decide) (by decide))
    (field.not_mem_front (by decide) (by decide))
  have type := field.isType.paired ('{', '}') (by decide)
  have indent : Text.Paired '{' '}' (List.replicate interface.indent ' ') :=
    bare (by simp) (by simp)
  have semicolon : Text.Paired '{' '}' [';'] := bare (by decide) (by decide)
  exact indent.append ((front.append type).append semicolon)

theorem paired_body : Text.Paired '{' '}' interface.body := by
  have feed : Text.Paired '{' '}' ['\n'] := Text.paired_of_not_mem (by decide) (by decide)
  have lines : Text.Paired '{' '}'
      ((interface.fields.map interface.line).flatMap (· ++ ['\n'])) := by
    refine Text.paired_flatMap fun line mem => ?_
    obtain ⟨field, -, rfl⟩ := List.mem_map.mp mem
    exact (interface.paired_line field).append feed
  have whole := feed.append lines
  rwa [← List.append_nil (List.flatMap _ _)] at whole

theorem firstBlock_body : Text.firstBlock (' ' :: '{' :: (interface.body ++ interface.closing)) =
    some interface.body := by
  have cut : Text.cutAt? (· == '{') (' ' :: '{' :: (interface.body ++ interface.closing)) =
      some ([' '], interface.body ++ interface.closing) :=
    @Text.cutAt?_append _ [' '] (by decide) _ rfl _
  rw [Text.firstBlock, cut]
  exact Text.blockAfterBrace_of_paired interface.paired_body _

/-! ## The members -/

theorem member?_chars (field : Field) :
    Text.member? (List.replicate interface.indent ' ' ++ field.chars) = some field.chars := by
  obtain ⟨c, text, chars, plain⟩ := field.exists_chars
  have blank : ∀ d ∈ List.replicate interface.indent ' ', Text.isBlank d = true :=
    ImportSyntax.Braces.blank_of_replicate
  have trimmed := field.isTrimmed_chars
  rw [chars] at trimmed ⊢
  refine Text.member?_append blank trimmed ?_ ?_
  · rintro rfl
    exact absurd plain (by decide)
  · rintro rfl
    exact absurd plain (by decide)

/-- The line of a field is one member, whatever follows. -/
theorem membersAux_line (field : Field) (rest : List Char) :
    Text.membersAux ⟨0, 0, '\n'⟩ [] (interface.line field ++ '\n' :: rest) =
      field.chars :: Text.membersAux ⟨0, 0, '\n'⟩ [] rest := by
  let lead := List.replicate interface.indent ' ' ++ field.front
  let behind := ';' :: '\n' :: rest
  have shape : interface.line field ++ '\n' :: rest =
      lead ++ (field.typeName.toList ++ behind) := by
    simp [line, Field.chars, lead, behind]
  have bare : ∀ c ∈ lead, Text.isBracket c = false ∧ Text.isMemberSeparator c = false := by
    intro c mem
    rcases List.mem_append.mp mem with space | front
    · obtain rfl := (List.mem_replicate.mp space).2
      decide
    · exact field.bare_front c front
  have ends : lead.getLast? = some ' ' := by
    simp [lead, Field.front]
  obtain ⟨last, level⟩ := Text.Nesting.after_of_paired
    (fun pair mem => (field.isType.paired pair mem).2) field.isType.closed
  have listed : Text.member? (field.typeName.toList.reverse ++ lead.reverse).reverse =
      some field.chars := by
    rw [← List.reverse_append, List.reverse_reverse, ← interface.member?_chars, Field.chars,
      ← List.append_assoc]
  have semicolon : Text.Nesting.step ⟨0, 0, last⟩ ';' = ⟨0, 0, ';'⟩ := by
    simp [Text.Nesting.step]
  calc Text.membersAux ⟨0, 0, '\n'⟩ [] (interface.line field ++ '\n' :: rest)
    _ = Text.membersAux ⟨0, 0, ' '⟩ lead.reverse (field.typeName.toList ++ behind) := by
      rw [shape, Text.membersAux_bare bare, ends, List.append_nil]
      rfl
    _ = Text.membersAux ⟨0, 0, last⟩ (field.typeName.toList.reverse ++ lead.reverse) behind := by
      rw [Text.membersAux_append field.isType.outside_eq_false, level]
    _ = field.chars :: Text.membersAux ⟨0, 0, ';'⟩ [] ('\n' :: rest) := by
      rw [Text.membersAux_separator rfl rfl, listed, semicolon]
      rfl
    _ = field.chars :: Text.membersAux ⟨0, 0, '\n'⟩ [] rest := by
      rw [Text.membersAux_separator rfl rfl]
      rfl

theorem members_body : Text.members interface.body = interface.fields.map Field.chars := by
  have run : ∀ fields : List Field, Text.membersAux ⟨0, 0, '\n'⟩ []
      (Text.withFeeds (fields.map interface.line) []) = fields.map Field.chars := by
    intro fields
    induction fields with
    | nil => rfl
    | cons field fields ih =>
      rw [List.map_cons, Text.withFeeds_cons, membersAux_line, ih, List.map_cons]
  have first : Text.members interface.body = Text.membersAux ⟨0, 0, '\n'⟩ []
      (Text.withFeeds (interface.fields.map interface.line) []) := by
    rw [Text.members, body, Text.membersAux_separator (by decide) (by decide)]
    rfl
  rw [first, run]

theorem properties_body : properties interface.body = interface.fields.map Field.read := by
  have each : (fun member => (property.matchFront? member).map fun found =>
      FieldDef.mk (nameOf found) (String.ofList (Text.trimChars (found.part 3))) (found.has 2)) ∘
        Field.chars = some ∘ Field.read := by
    funext field
    obtain ⟨found, here, name, type, optional⟩ := field.exists_match_property
    have trimmed := field.isType.trimmed.trimChars_eq
    simp [here, name, type, optional, trimmed, Field.read]
  rw [properties, members_body, List.filterMap_map, each, List.filterMap_eq_map]

end Interface

/-- An interface that is written is read as it was written. -/
theorem extract_written (interface : Interface) :
    NodeFacts.extract .interface interface.name interface.chars =
      .shape (interface.fields.map Field.read) := by
  rw [NodeFacts.extract, shapeFields, interface.shapeBody?_chars _ rfl, interface.firstBlock_body,
    Option.map_some, interface.properties_body]
  rfl

/-- How a field is written whose type has separators, an arrow and brackets in its arguments. -/
example : Interface.chars ⟨"A", [⟨"readonly", true, "Map<K, \x7b f: (x: B<C>) => D; g: E \x7d[]>",
    by decide, ⟨by decide, ⟨by decide, by decide⟩, by decide, by decide, by decide, by decide⟩⟩],
    2, true, by decide⟩ = "export interface A \x7b\n".toList ++
      "  readonly?: Map<K, \x7b f: (x: B<C>) => D; g: E \x7d[]>;\n\x7d\n".toList := by
  decide

end InterfaceSyntax

end ChangeImpact
