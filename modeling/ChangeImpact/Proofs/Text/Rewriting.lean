import ChangeImpact.Proofs.Text.Pieces

/-!
# Rewriting the occurrences of a word

A word stands in a text between two neighbours, each a character or an end of the text. Rewriting
puts a new word in the place of every occurrence whose neighbours are accepted, and keeps the rest
of the text. Where no occurrence is accepted that a letter touches, there is one way to rewrite a
text, what comes out tells which occurrences were accepted, and none of these is left in it.
-/

namespace ChangeImpact.Text

/-- An occurrence of a word in a text that `last` stands before, by its neighbours. -/
def Stands (word : List Char) (last : Option Char) (text : List Char)
    (before after : Option Char) : Prop :=
  ∃ front rest, text = front ++ (word ++ rest) ∧ before = front.getLast?.or last ∧
    after = rest.head?

/-- Copying a text with `new` in the place of those occurrences of `old` whose neighbours are
accepted. The first index is the character before the text. -/
inductive Rewrites (accepts : Option Char → Option Char → Prop) (old new : List Char) :
    Option Char → List Char → List Char → Prop
  | done {last : Option Char} : Rewrites accepts old new last [] []
  | replaced {last : Option Char} {rest out : List Char} (accepted : accepts last rest.head?)
      (further : Rewrites accepts old new old.getLast? rest out) :
      Rewrites accepts old new last (old ++ rest) (new ++ out)
  | kept {last : Option Char} {c : Char} {rest out : List Char}
      (rejected : ∀ after, c :: rest = old ++ after → ¬ accepts last after.head?)
      (further : Rewrites accepts old new (some c) rest out) :
      Rewrites accepts old new last (c :: rest) (c :: out)

structure IsWordOf (letter : Char → Bool) (word : List Char) : Prop where
  nonempty : word ≠ []
  letters : ∀ c ∈ word, letter c = true

instance (letter : Char → Bool) (word : List Char) : Decidable (IsWordOf letter word) :=
  decidable_of_iff (word ≠ [] ∧ ∀ c ∈ word, letter c = true)
    ⟨fun isWord => ⟨isWord.1, isWord.2⟩, fun isWord => ⟨isWord.1, isWord.2⟩⟩

def Whole (letter : Char → Bool) (before after : Option Char) : Prop :=
  before.any letter = false ∧ after.any letter = false

instance (letter : Char → Bool) (before after : Option Char) :
    Decidable (Whole letter before after) :=
  inferInstanceAs (Decidable (_ ∧ _))

/-- Nothing is accepted that a letter touches. -/
def Spares (accepts : Option Char → Option Char → Prop) (letter : Char → Bool) : Prop :=
  ∀ before after, accepts before after → Whole letter before after

variable {letter : Char → Bool} {accepts accepts' : Option Char → Option Char → Prop}
  {old new word front text rest out out' : List Char} {last last' before after : Option Char}
  {c : Char}

/-! ## Neighbours -/

theorem getLast?_cons_or (c : Char) (front : List Char) (last : Option Char) :
    (c :: front).getLast?.or last = front.getLast?.or (some c) := by
  rw [List.getLast?_cons, Option.some_or, Option.or_some]

theorem Whole.mono {wider : Char → Bool} (covers : ∀ c, letter c = true → wider c = true)
    (whole : Whole wider before after) : Whole letter before after := by
  have apart : ∀ {side : Option Char}, side.any wider = false → side.any letter = false := by
    intro side none
    cases side with
    | none => rfl
    | some c =>
      cases hit : letter c with
      | false => exact hit
      | true => simp [covers c hit] at none
  exact ⟨apart whole.1, apart whole.2⟩

theorem spares_whole (letter : Char → Bool) : Spares (Whole letter) letter :=
  fun _ _ whole => whole

theorem IsWordOf.mono {wider : Char → Bool} (covers : ∀ c, letter c = true → wider c = true)
    (isWord : IsWordOf letter word) : IsWordOf wider word :=
  ⟨isWord.nonempty, fun c mem => covers c (isWord.letters c mem)⟩

theorem IsWordOf.exists_cons (isWord : IsWordOf letter word) : ∃ c tail, word = c :: tail ∧
    (some c).any letter = true ∧ (∀ d ∈ tail, letter d = true) ∧
    word.getLast? = tail.getLast?.or (some c) := by
  obtain ⟨c, tail, rfl⟩ := List.exists_cons_of_ne_nil isWord.nonempty
  obtain ⟨hit, letters⟩ := List.forall_mem_cons.mp isWord.letters
  exact ⟨c, tail, rfl, hit, letters, by rw [← getLast?_cons_or c tail none, Option.or_none]⟩

theorem IsWordOf.getLast?_or (isWord : IsWordOf letter word) (last : Option Char) :
    word.getLast?.or last = word.getLast? := by
  rw [List.getLast?_eq_some_getLast isWord.nonempty, Option.some_or]

theorem IsWordOf.touches (isWord : IsWordOf letter word) : word.getLast?.any letter = true := by
  rw [List.getLast?_eq_some_getLast isWord.nonempty]
  exact isWord.letters _ (List.getLast_mem _)

theorem Spares.rejects_of_touched (spares : Spares accepts letter)
    (touched : before.any letter = true) : ¬ accepts before after := fun accepted => by
  simp [(spares _ _ accepted).1] at touched

/-- Of two texts that are the same, the words that they begin with are the same. -/
theorem IsWordOf.eq_of_append_eq {word' rest' : List Char} (isWord : IsWordOf letter word)
    (isWord' : IsWordOf letter word') (stops : rest.head?.any letter = false)
    (stops' : rest'.head?.any letter = false) (same : word ++ rest = word' ++ rest') :
    word = word' := by
  have read : ∀ {word rest : List Char}, IsWordOf letter word → rest.head?.any letter = false →
      (word ++ rest).takeWhile letter = word := fun isWord stops =>
    takeWhile_append_of_stops isWord.letters fun c (first : _ = some c) => by
      rwa [first] at stops
  rw [← read isWord stops, same, read isWord' stops']

/-! ## Occurrences -/

theorem stands_here (word : List Char) (last : Option Char) (rest : List Char) :
    Stands word last (word ++ rest) last rest.head? :=
  ⟨[], rest, rfl, rfl, rfl⟩

theorem Stands.behind
    (stands : Stands word (front.getLast?.or last) text before after) :
    Stands word last (front ++ text) before after := by
  obtain ⟨inner, rest, rfl, rfl, rfl⟩ := stands
  refine ⟨front ++ inner, rest, (List.append_assoc _ _ _).symm, ?_, rfl⟩
  rw [List.getLast?_append, Option.or_assoc]

theorem not_stands_nil (nonempty : word ≠ []) : ¬ Stands word last [] before after := by
  rintro ⟨front, rest, split, -, -⟩
  simp [nonempty] at split

theorem Stands.mem_before (stands : Stands word none text before after) :
    ∀ c ∈ before, c ∈ text := by
  obtain ⟨front, rest, rfl, rfl, -⟩ := stands
  intro c mem
  exact List.mem_append_left _ (List.mem_of_getLast? (by simpa using mem))

theorem Stands.mem_after (stands : Stands word none text before after) :
    ∀ c ∈ after, c ∈ text := by
  obtain ⟨front, rest, rfl, -, rfl⟩ := stands
  intro c mem
  exact List.mem_append_right _ (List.mem_append_right _ (List.mem_of_head? mem))

/-- An occurrence is the first thing in the text or stands behind its first character. -/
theorem Stands.cases_cons (stands : Stands word last (c :: text) before after) :
    (∃ rest, c :: text = word ++ rest ∧ before = last ∧ after = rest.head?) ∨
      Stands word (some c) text before after := by
  obtain ⟨front, rest, split, rfl, rfl⟩ := stands
  cases front with
  | nil => exact .inl ⟨rest, split, rfl, rfl⟩
  | cons d front =>
    obtain ⟨rfl, rfl⟩ := List.cons.inj split
    exact .inr ⟨front, rest, rfl, getLast?_cons_or c front last, rfl⟩

theorem Stands.cases_of_touched (touched : last.any letter = true)
    (letters : ∀ c ∈ front, letter c = true)
    (stands : Stands word last (front ++ rest) before after) :
    before.any letter = true ∨ Stands word (front.getLast?.or last) rest before after := by
  induction front generalizing last with
  | nil => exact .inr stands
  | cons c front ih =>
    obtain ⟨hit, letters⟩ := List.forall_mem_cons.mp letters
    obtain ⟨-, -, rfl, -⟩ | stands := stands.cases_cons
    · exact .inl touched
    · exact getLast?_cons_or c front last ▸ ih hit letters stands

/-- An occurrence in a text that begins with a word is the first thing in it, or a letter is before
it, or it stands behind the word. -/
theorem Stands.cases_word (isWord : IsWordOf letter front)
    (stands : Stands word last (front ++ rest) before after) :
    (∃ back, front ++ rest = word ++ back ∧ before = last ∧ after = back.head?) ∨
      before.any letter = true ∨ Stands word front.getLast? rest before after := by
  obtain ⟨c, tail, rfl, touched, letters, behind⟩ := isWord.exists_cons
  refine stands.cases_cons.imp_right fun stands => ?_
  exact behind ▸ stands.cases_of_touched touched letters

/-- A text is taken apart from the left: an occurrence of the word, or a character at which none
begins. -/
@[elab_as_elim]
theorem occurrence_induction {motive : Option Char → List Char → Prop} (nonempty : word ≠ [])
    (nil : ∀ last, motive last [])
    (here : ∀ last rest, motive word.getLast? rest → motive last (word ++ rest))
    (later : ∀ last c rest, (∀ after, c :: rest ≠ word ++ after) → motive (some c) rest →
      motive last (c :: rest)) (last : Option Char) (text : List Char) : motive last text := by
  induction size : text.length using Nat.strongRecOn generalizing last text with
  | ind n ih =>
    subst size
    cases text with
    | nil => exact nil last
    | cons c rest =>
      by_cases begins : ∃ after, c :: rest = word ++ after
      · obtain ⟨after, split⟩ := begins
        have shorter : after.length < (c :: rest).length := by
          have size := List.length_pos_iff.mpr nonempty
          simp only [split, List.length_append]
          omega
        rw [split]
        exact here last after (ih after.length shorter _ after rfl)
      · have none : ∀ after, c :: rest ≠ word ++ after := fun after split => begins ⟨after, split⟩
        exact later last c rest none (ih rest.length (Nat.lt_succ_self _) _ rest rfl)

/-! ## Behind a letter -/

namespace Rewrites

/-- Behind a letter nothing is replaced. -/
theorem cases_of_touched (spares : Spares accepts letter) (touched : last.any letter = true)
    (rewrites : Rewrites accepts old new last text out) :
    text = [] ∧ out = [] ∨ ∃ c rest rest', text = c :: rest ∧ out = c :: rest' ∧
      Rewrites accepts old new (some c) rest rest' := by
  cases rewrites with
  | done => exact .inl ⟨rfl, rfl⟩
  | replaced accepted further => exact absurd accepted (spares.rejects_of_touched touched)
  | kept rejected further => exact .inr ⟨_, _, _, rfl, rfl, further⟩

theorem head?_eq (spares : Spares accepts letter) (touched : last.any letter = true)
    (rewrites : Rewrites accepts old new last text out) : out.head? = text.head? := by
  obtain ⟨rfl, rfl⟩ | ⟨c, rest, rest', rfl, rfl, -⟩ := rewrites.cases_of_touched spares touched
  · rfl
  · rfl

/-- Letters behind a letter are copied. -/
theorem copies (spares : Spares accepts letter) (touched : last.any letter = true)
    (letters : ∀ c ∈ word, letter c = true)
    (rewrites : Rewrites accepts old new last (word ++ rest) out) :
    ∃ out', out = word ++ out' ∧ Rewrites accepts old new (word.getLast?.or last) rest out' := by
  induction word generalizing last out with
  | nil => exact ⟨out, rfl, rewrites⟩
  | cons c word ih =>
    obtain ⟨hit, letters⟩ := List.forall_mem_cons.mp letters
    obtain ⟨none, -⟩ | ⟨d, text, out, split, rfl, further⟩ :=
      rewrites.cases_of_touched spares touched
    · simp at none
    · obtain ⟨rfl, rfl⟩ := List.cons.inj split
      have touched : (some c).any letter = true := hit
      obtain ⟨out', rfl, onward⟩ := ih touched letters further
      exact ⟨out', rfl, getLast?_cons_or c word last ▸ onward⟩

/-- Letters that come out behind a letter were in the text. -/
theorem copied (spares : Spares accepts letter) (touched : last.any letter = true)
    (letters : ∀ c ∈ word, letter c = true)
    (rewrites : Rewrites accepts old new last text (word ++ out)) :
    ∃ rest, text = word ++ rest := by
  induction word generalizing last text with
  | nil => exact ⟨text, rfl⟩
  | cons c word ih =>
    obtain ⟨hit, letters⟩ := List.forall_mem_cons.mp letters
    obtain ⟨-, none⟩ | ⟨d, text, out', rfl, split, further⟩ :=
      rewrites.cases_of_touched spares touched
    · simp at none
    · obtain ⟨rfl, rfl⟩ := List.cons.inj split
      have touched : (some c).any letter = true := hit
      obtain ⟨rest, rfl⟩ := ih touched letters further
      exact ⟨rest, rfl⟩

theorem copy (spares : Spares accepts letter) (touched : last.any letter = true)
    (letters : ∀ c ∈ word, letter c = true)
    (rewrites : Rewrites accepts old new (word.getLast?.or last) rest out) :
    Rewrites accepts old new last (word ++ rest) (word ++ out) := by
  induction word generalizing last with
  | nil => exact rewrites
  | cons c word ih =>
    obtain ⟨hit, letters⟩ := List.forall_mem_cons.mp letters
    rw [getLast?_cons_or] at rewrites
    exact .kept (fun _ _ => spares.rejects_of_touched touched) (ih hit letters rewrites)

/-! ## At an occurrence -/

theorem rejected (spares : Spares accepts letter) (isOld : IsWordOf letter old)
    (rejected : ¬ accepts last rest.head?)
    (further : Rewrites accepts old new old.getLast? rest out) :
    Rewrites accepts old new last (old ++ rest) (old ++ out) := by
  obtain ⟨c, tail, rfl, touched, letters, behind⟩ := isOld.exists_cons
  refine .kept (fun after split => ?_) (copy spares touched letters (behind ▸ further))
  have split : (c :: tail) ++ rest = (c :: tail) ++ after := split
  exact List.append_cancel_left split ▸ rejected

/-- At an occurrence, the new word comes out if it is accepted, and else the old one. -/
theorem cases_occurrence (spares : Spares accepts letter) (isOld : IsWordOf letter old)
    (rewrites : Rewrites accepts old new last (old ++ rest) out) :
    ∃ out', Rewrites accepts old new old.getLast? rest out' ∧
      (accepts last rest.head? ∧ out = new ++ out' ∨
        ¬ accepts last rest.head? ∧ out = old ++ out') := by
  generalize split : old ++ rest = text at rewrites
  cases rewrites with
  | done => simp [isOld.nonempty] at split
  | replaced accepted further =>
    obtain rfl := List.append_cancel_left split
    exact ⟨_, further, .inl ⟨accepted, rfl⟩⟩
  | kept rejected further =>
    obtain ⟨c, tail, rfl, touched, letters, behind⟩ := isOld.exists_cons
    obtain ⟨rfl, rfl⟩ := List.cons.inj split
    obtain ⟨out', rfl, onward⟩ := copies spares touched letters further
    exact ⟨out', behind ▸ onward, .inr ⟨rejected rest rfl, rfl⟩⟩

theorem cases_no_occurrence (none : ∀ after, c :: rest ≠ old ++ after)
    (rewrites : Rewrites accepts old new last (c :: rest) out) :
    ∃ out', Rewrites accepts old new (some c) rest out' ∧ out = c :: out' := by
  generalize split : c :: rest = text at rewrites
  cases rewrites with
  | done => simp at split
  | replaced accepted further => exact absurd split (none _)
  | kept rejected further =>
    obtain ⟨rfl, rfl⟩ := List.cons.inj split
    exact ⟨_, further, rfl⟩

theorem eq_nil (nonempty : old ≠ []) (rewrites : Rewrites accepts old new last [] out) :
    out = [] := by
  generalize split : [] = text at rewrites
  cases rewrites with
  | done => rfl
  | replaced accepted further => simp [nonempty] at split
  | kept rejected further => simp at split

/-! ## Runs -/

theorem unique (spares : Spares accepts letter) (isOld : IsWordOf letter old)
    (rewrites : Rewrites accepts old new last text out)
    (rewrites' : Rewrites accepts old new last text out') : out = out' := by
  induction last, text using occurrence_induction isOld.nonempty generalizing out out' with
  | nil => rw [rewrites.eq_nil isOld.nonempty, rewrites'.eq_nil isOld.nonempty]
  | here last rest ih =>
    obtain ⟨back, further, way⟩ := rewrites.cases_occurrence spares isOld
    obtain ⟨back', further', way'⟩ := rewrites'.cases_occurrence spares isOld
    obtain rfl := ih further further'
    obtain ⟨accepted, rfl⟩ | ⟨rejected, rfl⟩ := way
    · exact (way'.resolve_right fun other => other.1 accepted).2.symm
    · exact (way'.resolve_left fun other => rejected other.1).2.symm
  | later last c rest none ih =>
    obtain ⟨back, further, rfl⟩ := rewrites.cases_no_occurrence none
    obtain ⟨back', further', rfl⟩ := rewrites'.cases_no_occurrence none
    rw [ih further further']

theorem congr (spares : Spares accepts letter) (spares' : Spares accepts' letter)
    (isOld : IsWordOf letter old)
    (agree : ∀ before after, Stands old last text before after →
      (accepts before after ↔ accepts' before after))
    (rewrites : Rewrites accepts old new last text out) :
    Rewrites accepts' old new last text out := by
  induction last, text using occurrence_induction isOld.nonempty generalizing out with
  | nil =>
    rw [rewrites.eq_nil isOld.nonempty]
    exact .done
  | here last rest ih =>
    obtain ⟨back, further, way⟩ := rewrites.cases_occurrence spares isOld
    have same := agree _ _ (stands_here old last rest)
    have onward := ih (fun before after stands => agree before after ?_) further
    · obtain ⟨accepted, rfl⟩ | ⟨rejects, rfl⟩ := way
      · exact .replaced (same.mp accepted) onward
      · exact rejected spares' isOld (fun accepted => rejects (same.mpr accepted)) onward
    · rw [← isOld.getLast?_or last] at stands
      exact stands.behind
  | later last c rest none ih =>
    obtain ⟨back, further, rfl⟩ := rewrites.cases_no_occurrence none
    refine .kept (fun after split => absurd split (none after)) ?_
    refine ih (fun before after stands => ?_) further
    have stands : Stands old ([c].getLast?.or last) rest before after := stands
    exact agree before after stands.behind

/-- If two conditions give the same, they agree at every occurrence: an accepted occurrence and a
rejected one come out as different words. -/
theorem agree (spares : Spares accepts letter) (spares' : Spares accepts' letter)
    (isOld : IsWordOf letter old) (isNew : IsWordOf letter new) (differ : old ≠ new)
    (rewrites : Rewrites accepts old new last text out)
    (rewrites' : Rewrites accepts' old new last text out)
    (stands : Stands old last text before after) :
    accepts before after ↔ accepts' before after := by
  induction last, text using occurrence_induction isOld.nonempty generalizing out with
  | nil => exact absurd stands (not_stands_nil isOld.nonempty)
  | here last rest ih =>
    obtain ⟨back, further, way⟩ := rewrites.cases_occurrence spares isOld
    obtain ⟨back', further', way'⟩ := rewrites'.cases_occurrence spares' isOld
    have first := further.head?_eq spares isOld.touches
    have first' := further'.head?_eq spares' isOld.touches
    have apart : ∀ {x y : List Char}, x.head? = rest.head? → y.head? = rest.head? →
        rest.head?.any letter = false → new ++ x ≠ old ++ y := fun one other stops same =>
      differ (isNew.eq_of_append_eq isOld (one ▸ stops) (other ▸ stops) same).symm
    have decided : (accepts last rest.head? ↔ accepts' last rest.head?) ∧ back = back' := by
      obtain ⟨accepted, rfl⟩ | ⟨rejected, rfl⟩ := way
      · obtain ⟨accepted', same⟩ | ⟨rejected', same⟩ := way'
        · exact ⟨iff_of_true accepted accepted', List.append_cancel_left same⟩
        · exact absurd same (apart first first' (spares _ _ accepted).2)
      · obtain ⟨accepted', same⟩ | ⟨rejected', same⟩ := way'
        · exact absurd same.symm (apart first' first (spares' _ _ accepted').2)
        · exact ⟨iff_of_false rejected rejected', List.append_cancel_left same⟩
    obtain ⟨same, rfl⟩ := decided
    obtain ⟨behind, split, rfl, rfl⟩ | touched | stands := stands.cases_word isOld
    · exact List.append_cancel_left split ▸ same
    · exact iff_of_false (spares.rejects_of_touched touched) (spares'.rejects_of_touched touched)
    · exact ih further further' stands
  | later last c rest none ih =>
    obtain ⟨back, further, rfl⟩ := rewrites.cases_no_occurrence none
    obtain ⟨back', further', same⟩ := rewrites'.cases_no_occurrence none
    obtain rfl := (List.cons.inj same).2
    obtain ⟨rest', split, -⟩ | stands := stands.cases_cons
    · exact absurd split (none rest')
    · exact ih further further' stands

/-- Where nothing is accepted, the text is copied. -/
theorem of_never (last : Option Char) (text : List Char) :
    Rewrites (fun _ _ => False) old new last text text := by
  induction text generalizing last with
  | nil => exact .done
  | cons c rest ih => exact .kept (fun _ _ => id) (ih (some c))

/-- Rewriting changes a text exactly if it has an occurrence that is accepted. -/
theorem ne_iff (spares : Spares accepts letter) (isOld : IsWordOf letter old)
    (isNew : IsWordOf letter new) (differ : old ≠ new)
    (rewrites : Rewrites accepts old new last text out) :
    out ≠ text ↔ ∃ before after, Stands old last text before after ∧ accepts before after := by
  have never : Spares (fun _ _ => False) letter := fun _ _ => False.elim
  have copy := @of_never old new last text
  constructor
  · intro changed
    refine Classical.byContradiction fun none => changed ?_
    refine unique never isOld (congr spares never isOld ?_ rewrites) copy
    exact fun before after stands =>
      iff_of_false (fun accepted => none ⟨before, after, stands, accepted⟩) id
  · rintro ⟨before, after, stands, accepted⟩ rfl
    exact (agree spares never isOld isNew differ rewrites copy stands).mp accepted

/-- No accepted occurrence of the old word is left in what comes out; `last'` stands before it. -/
theorem rejects_of_stands (spares : Spares accepts letter) (isOld : IsWordOf letter old)
    (isNew : IsWordOf letter new) (differ : old ≠ new)
    (rewrites : Rewrites accepts old new last text out)
    (earlier : ∀ after, accepts last' after → accepts last after)
    (stands : Stands old last' out before after) : ¬ accepts before after := by
  induction last, text using occurrence_induction isOld.nonempty generalizing last' out with
  | nil =>
    rw [rewrites.eq_nil isOld.nonempty] at stands
    exact absurd stands (not_stands_nil isOld.nonempty)
  | here last rest ih =>
    obtain ⟨back, further, way⟩ := rewrites.cases_occurrence spares isOld
    have first := further.head?_eq spares isOld.touches
    obtain ⟨accepted, rfl⟩ | ⟨rejected, rfl⟩ := way
    · obtain ⟨behind, split, rfl, rfl⟩ | touched | stands := stands.cases_word isNew
      · intro again
        refine differ (isNew.eq_of_append_eq isOld ?_ (spares _ _ again).2 split).symm
        exact first ▸ (spares _ _ accepted).2
      · exact spares.rejects_of_touched touched
      · refine ih further (fun after again => ?_) stands
        exact absurd again (spares.rejects_of_touched isNew.touches)
    · obtain ⟨behind, split, rfl, rfl⟩ | touched | stands := stands.cases_word isOld
      · rw [← List.append_cancel_left split, first]
        exact fun again => rejected (earlier _ again)
      · exact spares.rejects_of_touched touched
      · exact ih further (fun _ => id) stands
  | later last c rest none ih =>
    obtain ⟨back, further, rfl⟩ := rewrites.cases_no_occurrence none
    obtain ⟨behind, split, -⟩ | stands := stands.cases_cons
    · -- The rest of such an occurrence would have been copied from the text.
      obtain ⟨d, tail, rfl, touched, letters, -⟩ := isOld.exists_cons
      obtain ⟨rfl, rfl⟩ := List.cons.inj split
      obtain ⟨after, rfl⟩ := further.copied spares touched letters
      exact absurd rfl (none after)
    · exact ih further (fun _ => id) stands

end Rewrites

end ChangeImpact.Text
