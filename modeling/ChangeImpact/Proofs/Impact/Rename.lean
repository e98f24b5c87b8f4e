import ChangeImpact.Proofs.Impact.AutoFix
import ChangeImpact.Proofs.Pattern.Occurs
import ChangeImpact.Proofs.Source.ClauseText
import ChangeImpact.Proofs.Text.Rewriting

/-!
# Renaming in a line

A rename looks for the old name with a pattern and puts in the new one with a search of its own.
Both take an occurrence for a whole identifier if no character of a class touches it. The classes
are the same in ASCII but not beyond: a combining mark continues a name for the pattern alone, a
superscript digit for the replacement alone. So the two go together on a line exactly if they judge
every occurrence of the name in it alike.
-/

namespace ChangeImpact

open ImportSyntax (isPlain isIdentifier)
open Text (IsWordOf Rewrites Spares Stands Whole)

/-! ## The two classes -/

namespace Occurrence

theorem isNameChar_eq_of_isAscii {c : Char} (ascii : Text.isAscii c = true) :
    Text.isNameChar c = Text.isIdentifierChar c := by
  simp [Text.isNameChar, Text.isIdentifierChar, Text.isWord, Text.isAlphanumeric, ascii]

theorem isIdentifierChar_of_isPlain {c : Char} (plain : isPlain c = true) :
    Text.isIdentifierChar c = true := by
  simpa [Text.isIdentifierChar, Text.isAlphanumeric, ImportSyntax.isAscii_of_isPlain plain,
    isPlain] using plain

theorem spares_isIdentifierChar : Spares (Whole Text.isIdentifierChar) isPlain :=
  fun _ _ whole => whole.mono fun _ => isIdentifierChar_of_isPlain

theorem spares_isNameChar : Spares (Whole Text.isNameChar) isPlain :=
  fun _ _ whole => whole.mono fun _ plain => by
    rw [isNameChar_eq_of_isAscii (ImportSyntax.isAscii_of_isPlain plain)]
    exact isIdentifierChar_of_isPlain plain

/-! ## Finding -/

theorem mem_results_notNameChar_iff {trace next : Trace} : next ∈ notNameChar.results trace ↔
    ∃ c rest, trace.place.rest = c :: rest ∧ Text.isNameChar c = false ∧
      next = trace.past [c] rest := by
  simp only [notNameChar, Pattern.mem_results_one_iff, Bool.not_eq_true']

theorem exists_of_mem_results_start {trace next : Trace}
    (mem : next ∈ (Pattern.alt (.anchor .textStart) notNameChar).results trace) :
    ∃ read rest, trace.place.rest = read ++ rest ∧ next = trace.past read rest ∧
      next.place.before.any Text.isNameChar = false := by
  rcases Pattern.mem_results_alt_iff.mp mem with anchored | behind
  · obtain ⟨start, rfl⟩ := Pattern.mem_results_anchor_iff.mp anchored
    have none : next.place.before = none := Option.isNone_iff_eq_none.mp start
    exact ⟨[], next.place.rest, rfl, rfl, by rw [none, Option.any_none]⟩
  · obtain ⟨c, rest, text, other, rfl⟩ := mem_results_notNameChar_iff.mp behind
    exact ⟨[c], rest, text, rfl, other⟩

theorem exists_mem_results_end_iff {trace : Trace} :
    (∃ next, next ∈ (Pattern.alt notNameChar (.anchor .textEnd)).results trace) ↔
      trace.place.rest.head?.any Text.isNameChar = false := by
  simp only [Pattern.mem_results_alt_iff, mem_results_notNameChar_iff,
    Pattern.mem_results_anchor_iff, Anchor.holds]
  cases trace.place.rest with
  | nil => simp
  | cons c rest =>
    constructor
    · rintro ⟨next, ⟨d, back, text, other, -⟩ | ⟨none, -⟩⟩
      · exact (List.cons.inj text).1 ▸ other
      · simp at none
    · intro other
      exact ⟨trace.past [c] rest, .inl ⟨c, rest, rfl, other, rfl⟩⟩

/-- The pattern matches in a line exactly if the name stands in it with no name character on either
side. -/
theorem occurs_iff {name : String} {line : List Char} : occurs name line = true ↔
    ∃ before after, Stands name.toList none line before after ∧
      Whole Text.isNameChar before after := by
  rw [occurs, Pattern.occursIn_iff]
  constructor
  · rintro ⟨front, rest, rfl, next, mem⟩
    obtain ⟨start, before, mem⟩ := Pattern.mem_results_seq_iff.mp mem
    obtain ⟨named, here, behind⟩ := Pattern.mem_results_seq_iff.mp mem
    obtain ⟨read, rest, rfl, rfl, apart⟩ := exists_of_mem_results_start before
    obtain ⟨back, rfl, rfl⟩ := Pattern.mem_results_lit_iff.mp here
    refine ⟨_, _, ⟨front ++ read, back, by simp, rfl, rfl⟩, ?_,
      exists_mem_results_end_iff.mp ⟨next, behind⟩⟩
    rwa [List.getLast?_append, Option.or_assoc]
  · rintro ⟨before, after, ⟨front, back, rfl, rfl, rfl⟩, apart, whole⟩
    have onward : ∀ start : Trace, start.place.rest = name.toList ++ back → ∃ next,
        next ∈ (Pattern.seq (.lit name) (.alt notNameChar (.anchor .textEnd))).results start := by
      intro start text
      obtain ⟨next, mem⟩ := (@exists_mem_results_end_iff (start.past name.toList back)).mpr whole
      exact ⟨next, Pattern.mem_results_seq_iff.mpr
        ⟨_, Pattern.mem_results_lit_iff.mpr ⟨back, text, rfl⟩, mem⟩⟩
    rcases List.eq_nil_or_concat front with rfl | ⟨init, c, rfl⟩
    · -- At the beginning of the line.
      obtain ⟨next, mem⟩ := onward ⟨⟨none, name.toList ++ back, 0⟩, []⟩ rfl
      refine ⟨[], name.toList ++ back, rfl, next, Pattern.mem_results_seq_iff.mpr ⟨_, ?_, mem⟩⟩
      exact Pattern.mem_results_alt_iff.mpr (.inl (Pattern.mem_results_anchor_iff.mpr ⟨rfl, rfl⟩))
    · -- Behind a character, at which the match begins.
      have other : Text.isNameChar c = false := by simpa using apart
      refine ⟨init, c :: (name.toList ++ back), by simp, ?_⟩
      obtain ⟨next, mem⟩ := onward (Trace.past _ [c] (name.toList ++ back)) rfl
      refine ⟨next, Pattern.mem_results_seq_iff.mpr ⟨_, ?_, mem⟩⟩
      exact Pattern.mem_results_alt_iff.mpr
        (.inr (mem_results_notNameChar_iff.mpr ⟨c, _, rfl, other, rfl⟩))

/-! ## Replacing -/

theorem replaceAux_skip (old new : List Char) (last : Option Char) (front rest : List Char) :
    replaceAux old new last front.length (front ++ rest) =
      replaceAux old new (front.getLast?.or last) 0 rest := by
  induction front generalizing last with
  | nil => rfl
  | cons c front ih =>
    rw [Text.getLast?_cons_or, ← ih (some c)]
    simp [replaceAux]

theorem replaceAux_of_no_occurrence {old new rest : List Char} {last : Option Char} {c : Char}
    (none : ∀ after, c :: rest ≠ old ++ after) :
    replaceAux old new last 0 (c :: rest) = c :: replaceAux old new (some c) 0 rest := by
  cases begins : Text.dropWord? old (c :: rest) with
  | some after => exact absurd (Text.eq_append_of_dropWord? begins) (none after)
  | none => simp [replaceAux, begins]

theorem replaceAux_occurrence {old : List Char} (nonempty : old ≠ []) (new : List Char)
    (last : Option Char) (rest : List Char) :
    replaceAux old new last 0 (old ++ rest) =
      (if Whole Text.isIdentifierChar last rest.head? then new else old) ++
        replaceAux old new old.getLast? 0 rest := by
  obtain ⟨c, tail, rfl⟩ := List.exists_cons_of_ne_nil nonempty
  have begins : Text.dropWord? (c :: tail) (c :: (tail ++ rest)) = some rest :=
    Text.dropWord?_append (c :: tail) rest
  have onward := replaceAux_skip (c :: tail) new (some c) tail rest
  rw [← Text.getLast?_cons_or c tail none, Option.or_none] at onward
  have inside : (last.any Text.isIdentifierChar || rest.head?.any Text.isIdentifierChar) = true ↔
      ¬ Whole Text.isIdentifierChar last rest.head? := by
    simp only [Whole, ← Bool.or_eq_false_iff, Bool.not_eq_false]
  rw [List.cons_append, replaceAux]
  simp only [Nat.lt_irrefl, if_false, begins, List.length_cons, Nat.add_sub_cancel, onward, inside,
    ite_not]

/-- Replacing rewrites the occurrences that no identifier character touches. -/
theorem rewrites_replaceAux {old : List Char} (isOld : IsWordOf Text.isIdentifierChar old)
    (new : List Char) (last : Option Char) (text : List Char) :
    Rewrites (Whole Text.isIdentifierChar) old new last text (replaceAux old new last 0 text) := by
  induction last, text using Text.occurrence_induction isOld.nonempty with
  | nil last => exact .done
  | here last rest ih =>
    rw [replaceAux_occurrence isOld.nonempty]
    split
    · next whole => exact .replaced whole ih
    · next touched => exact .rejected (Text.spares_whole _) isOld touched ih
  | later last c rest none ih =>
    rw [replaceAux_of_no_occurrence none]
    exact .kept (fun after split => absurd split (none after)) ih

variable {old new : String}

theorem rewrites_replace_word (isOld : IsWordOf Text.isIdentifierChar old.toList) (new : String)
    (line : List Char) :
    Rewrites (Whole Text.isIdentifierChar) old.toList new.toList none line
      (replace old new line) := by
  have some : old ≠ "" := by
    rintro rfl
    exact isOld.nonempty rfl
  rw [replace, if_neg (by simpa using some)]
  exact rewrites_replaceAux isOld new.toList none line

theorem rewrites_replace (oldName : isIdentifier old.toList = true) (new : String)
    (line : List Char) :
    Rewrites (Whole Text.isIdentifierChar) old.toList new.toList none line
      (replace old new line) :=
  rewrites_replace_word ((ImportSyntax.isWordOf_of_isIdentifier oldName).mono fun _ =>
    isIdentifierChar_of_isPlain) new line

/-! ## Together -/

/-- What is found in a line is what is replaced in it, and no fix leaves the old name there. -/
structure RenamesFound (old new : String) (line : List Char) : Prop where
  found : occurs old line = true ↔ replace old new line ≠ line
  rewrites : Rewrites (Whole Text.isNameChar) old.toList new.toList none line (replace old new line)
  gone : occurs old (replace old new line) = false
  fixes : ∀ (dependent : CodeNode) (number : Nat),
    ∀ fix ∈ LineMark.autoFixes (Rule.renameMarks dependent old (some new) ⟨number, line⟩),
      occurs old fix.newCode.toList = false

/-- Every occurrence of a name in a line is judged alike by its pattern and its replacement. -/
def JudgedAlike (old : String) (line : List Char) : Prop :=
  ∀ before after, Stands old.toList none line before after →
    (Whole Text.isNameChar before after ↔ Whole Text.isIdentifierChar before after)

theorem judgedAlike_of_isAscii (old : String) {line : List Char}
    (ascii : ∀ c ∈ line, Text.isAscii c = true) : JudgedAlike old line := by
  have same : ∀ {side : Option Char}, (∀ c ∈ side, c ∈ line) →
      side.any Text.isNameChar = side.any Text.isIdentifierChar := by
    intro side within
    cases side with
    | none => rfl
    | some c => exact isNameChar_eq_of_isAscii (ascii c (within c rfl))
  intro before after stands
  rw [Whole, Whole, same stands.mem_before, same stands.mem_after]

theorem judgedAlike_of_rewrites (oldName : isIdentifier old.toList = true)
    (newName : isIdentifier new.toList = true) (differ : old ≠ new) {line : List Char}
    (rewrites : Rewrites (Whole Text.isNameChar) old.toList new.toList none line
      (replace old new line)) : JudgedAlike old line := fun _ _ stands =>
  rewrites.agree spares_isNameChar spares_isIdentifierChar
    (ImportSyntax.isWordOf_of_isIdentifier oldName) (ImportSyntax.isWordOf_of_isIdentifier newName)
    (fun same => differ (String.toList_inj.mp same)) (rewrites_replace oldName new line) stands

theorem renamesFound_of_judgedAlike (oldName : isIdentifier old.toList = true)
    (newName : isIdentifier new.toList = true) (differ : old ≠ new) {line : List Char}
    (alike : JudgedAlike old line) : RenamesFound old new line := by
  have isOld := ImportSyntax.isWordOf_of_isIdentifier oldName
  have isNew := ImportSyntax.isWordOf_of_isIdentifier newName
  have differ : old.toList ≠ new.toList := fun same => differ (String.toList_inj.mp same)
  have rewrites : Rewrites (Whole Text.isNameChar) old.toList new.toList none line
      (replace old new line) :=
    (rewrites_replace oldName new line).congr spares_isIdentifierChar spares_isNameChar isOld
      fun before after stands => (alike before after stands).symm
  have gone : occurs old (replace old new line) = false := by
    rw [← Bool.not_eq_true, occurs_iff]
    rintro ⟨before, after, stands, whole⟩
    exact rewrites.rejects_of_stands spares_isNameChar isOld isNew differ (fun _ => id) stands whole
  refine ⟨?_, rewrites, gone, ?_⟩
  · rw [rewrites.ne_iff spares_isNameChar isOld isNew differ, occurs_iff]
  · intro dependent number fix mem
    unfold Rule.renameMarks at mem
    split at mem
    · obtain rfl := List.mem_singleton.mp mem
      simpa [Patch.create] using gone
    · simp [LineMark.autoFixes] at mem

/-- A rename replaces what it finds in a line exactly if its two searches judge every occurrence of
the old name in it alike, as they do where the line is ASCII. In any case the occurrences that no
letter, number, `_` or `$` touches are replaced, and nothing else. -/
theorem renamesFound_iff (oldName : isIdentifier old.toList = true)
    (newName : isIdentifier new.toList = true) (differ : old ≠ new) (line : List Char) :
    (RenamesFound old new line ↔ JudgedAlike old line) ∧
      ((∀ c ∈ line, Text.isAscii c = true) → RenamesFound old new line) ∧
      Rewrites (Whole Text.isIdentifierChar) old.toList new.toList none line
        (replace old new line) := by
  refine ⟨⟨fun renames => ?_, renamesFound_of_judgedAlike oldName newName differ⟩, fun ascii => ?_,
    rewrites_replace oldName new line⟩
  · exact judgedAlike_of_rewrites oldName newName differ renames.rewrites
  · exact renamesFound_of_judgedAlike oldName newName differ (judgedAlike_of_isAscii old ascii)

/-- The name is found and replaced twice, and is part of two longer names. -/
theorem renamesFound_iff_ascii_line :
    let line := "const b: FooBar = Foo.create(MyFoo, Foo);".toList
    isIdentifier "Foo".toList = true ∧ isIdentifier "Bar".toList = true ∧ "Foo" ≠ "Bar" ∧
      RenamesFound "Foo" "Bar" line ∧
      replace "Foo" "Bar" line = "const b: FooBar = Bar.create(MyFoo, Bar);".toList := by
  intro line
  have oldName : isIdentifier "Foo".toList = true := by decide
  have newName : isIdentifier "Bar".toList = true := by decide
  have differ : "Foo" ≠ "Bar" := by decide
  have ascii : ∀ c ∈ line, Text.isAscii c = true := by decide
  obtain ⟨-, renames, -⟩ := renamesFound_iff oldName newName differ line
  exact ⟨oldName, newName, differ, renames ascii, by decide⟩

/-- A combining accent makes another word of the second name, which is renamed all the same. -/
theorem renamesFound_fails_at_mark :
    ¬ ∀ (old new : String) (line : List Char), isIdentifier old.toList = true →
      isIdentifier new.toList = true → old ≠ new → RenamesFound old new line := by
  intro always
  have renames := always "cafe" "tea" "cafe(cafe\u0301)".toList (by decide) (by decide) (by decide)
  have alike := judgedAlike_of_rewrites (by decide) (by decide) (by decide) renames.rewrites
  have stands : Stands "cafe".toList none "cafe(cafe\u0301)".toList (some '(') (some '\u0301') :=
    ⟨"cafe(".toList, "\u0301)".toList, by decide, by decide, by decide⟩
  have touched : ¬ Whole Text.isNameChar (some '(') (some '\u0301') := by decide +kernel
  exact touched ((alike _ _ stands).mpr (by decide +kernel))

end Occurrence

end ChangeImpact
