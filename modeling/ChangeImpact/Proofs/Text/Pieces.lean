import ChangeImpact.Text.Cut

/-!
# Pieces of texts

Trimming leaves the text between the blanks, splitting a text at a character gives the pieces that
were put together with it, and cutting a text that has a word in it gives what stands before and
behind the word.
-/

namespace ChangeImpact

namespace Text

-- What holds of the characters of a text is decided by looking at them, not at all characters.
instance decidableForallMem (p : Char → Prop) [DecidablePred p] (text : List Char) :
    Decidable (∀ c ∈ text, p c) :=
  List.decidableBAll p text

instance decidableForallMemOption (p : Char → Prop) [DecidablePred p] (first : Option Char) :
    Decidable (∀ c ∈ first, p c) :=
  Option.decidableForallMem first

/-! ## Trimming -/

/-- A text that neither begins nor ends with a blank. -/
structure IsTrimmed (text : List Char) : Prop where
  head : ∀ c ∈ text.head?, isBlank c = false
  last : ∀ c ∈ text.getLast?, isBlank c = false

theorem dropWhile_append_of_stops {p : Char → Bool} {front rest : List Char}
    (all : ∀ c ∈ front, p c = true) (stops : ∀ c ∈ rest.head?, p c = false) :
    (front ++ rest).dropWhile p = rest := by
  rw [List.dropWhile_append_of_pos all]
  cases rest with
  | nil => rfl
  | cons c rest => simp [stops c rfl]

theorem takeWhile_append_of_stops {p : Char → Bool} {front rest : List Char}
    (all : ∀ c ∈ front, p c = true) (stops : ∀ c ∈ rest.head?, p c = false) :
    (front ++ rest).takeWhile p = front := by
  rw [List.takeWhile_append_of_pos all]
  cases rest with
  | nil => simp
  | cons c rest => simp [stops c rfl]

theorem trimChars_blank {text : List Char} (blank : ∀ c ∈ text, isBlank c = true) :
    trimChars text = [] := by
  have none : trimStartChars text = [] := by
    have whole := @dropWhile_append_of_stops isBlank text [] blank (by simp)
    rwa [List.append_nil] at whole
  rw [trimChars, none]
  rfl

theorem trimChars_append {front text back : List Char} (blank : ∀ c ∈ front, isBlank c = true)
    (trimmed : IsTrimmed text) (blank' : ∀ c ∈ back, isBlank c = true) :
    trimChars (front ++ (text ++ back)) = text := by
  cases text with
  | nil =>
    refine trimChars_blank fun c mem => ?_
    rcases List.mem_append.mp mem with mem | mem
    · exact blank c mem
    · exact blank' c mem
  | cons c text =>
    have start : trimStartChars (front ++ (c :: text ++ back)) = c :: text ++ back :=
      dropWhile_append_of_stops blank fun d mem => trimmed.head d mem
    have ending : (c :: text ++ back).reverse.dropWhile isBlank = (c :: text).reverse := by
      rw [List.reverse_append]
      refine dropWhile_append_of_stops (fun d mem => blank' d (List.mem_reverse.mp mem)) ?_
      rw [List.head?_reverse]
      exact trimmed.last
    rw [trimChars, start, trimEndChars, ending, List.reverse_reverse]

theorem trimChars_append_end {front text : List Char} (blank : ∀ c ∈ front, isBlank c = true)
    (trimmed : IsTrimmed text) : trimChars (front ++ text) = text := by
  have whole := trimChars_append blank trimmed (List.forall_mem_nil _)
  rwa [List.append_nil] at whole

theorem IsTrimmed.trimChars_eq {text : List Char} (trimmed : IsTrimmed text) :
    trimChars text = text :=
  trimChars_append_end (List.forall_mem_nil _) trimmed

/-! ## Splitting -/

theorem splitChars_ne_nil (separator : Char) (text : List Char) :
    splitChars separator text ≠ [] := by
  cases text with
  | nil => exact List.cons_ne_nil _ _
  | cons c rest =>
    unfold splitChars
    split
    · exact List.cons_ne_nil _ _
    · split <;> exact List.cons_ne_nil _ _

theorem splitChars_append (separator : Char) (front back : List Char) :
    splitChars separator (front ++ separator :: back) =
      splitChars separator front ++ splitChars separator back := by
  induction front with
  | nil => simp [splitChars]
  | cons c front ih =>
    rw [List.cons_append, splitChars, splitChars, ih]
    split
    · rfl
    · cases pieces : splitChars separator front with
      | nil => exact absurd pieces (splitChars_ne_nil _ _)
      | cons piece pieces => rfl

theorem intercalate_splitChars (separator : Char) (text : List Char) :
    [separator].intercalate (splitChars separator text) = text := by
  induction text with
  | nil => rfl
  | cons c text ih =>
    rw [splitChars]
    cases pieces : splitChars separator text with
    | nil => exact absurd pieces (splitChars_ne_nil _ _)
    | cons piece pieces' =>
      rw [pieces] at ih
      split
      · next same =>
        rw [List.intercalate_cons_cons, ih, same]
        rfl
      · cases pieces' with
        | nil =>
          rw [List.intercalate_singleton] at ih ⊢
          rw [ih]
        | cons next pieces' =>
          rw [List.intercalate_cons_cons] at ih ⊢
          simp only [List.cons_append]
          rw [ih]

theorem splitChars_of_not_mem {separator : Char} {text : List Char} (absent : separator ∉ text) :
    splitChars separator text = [text] := by
  induction text with
  | nil => rfl
  | cons c text ih =>
    rw [List.mem_cons, not_or] at absent
    rw [splitChars, if_neg (Ne.symm absent.1), ih absent.2]

theorem not_mem_of_mem_splitChars {separator : Char} {text piece : List Char}
    (mem : piece ∈ splitChars separator text) : separator ∉ piece := by
  induction text generalizing piece with
  | nil => simp_all [splitChars]
  | cons c text ih =>
    rw [splitChars] at mem
    split at mem
    · rcases List.mem_cons.mp mem with rfl | mem
      · exact List.not_mem_nil
      · exact ih mem
    · next differs =>
      cases pieces : splitChars separator text with
      | nil => exact absurd pieces (splitChars_ne_nil _ _)
      | cons first later =>
        rw [pieces] at mem ih
        rcases List.mem_cons.mp mem with rfl | mem
        · exact List.not_mem_cons_of_ne_of_not_mem (Ne.symm differs) (ih List.mem_cons_self)
        · exact ih (List.mem_cons_of_mem _ mem)

/-- Pieces without the separator are read back from their text. -/
theorem splitChars_intercalate {separator : Char} {pieces : List (List Char)} (some : pieces ≠ [])
    (bare : ∀ piece ∈ pieces, separator ∉ piece) :
    splitChars separator ([separator].intercalate pieces) = pieces := by
  match pieces, some with
  | [piece], _ =>
    rw [List.intercalate_singleton]
    exact splitChars_of_not_mem (bare piece List.mem_cons_self)
  | piece :: next :: later, _ =>
    obtain ⟨first, bare⟩ := List.forall_mem_cons.mp bare
    rw [List.intercalate_cons_cons, List.append_assoc, List.singleton_append, splitChars_append,
      splitChars_of_not_mem first, splitChars_intercalate (List.cons_ne_nil _ _) bare]
    rfl

/-! ## Cutting -/

theorem dropWord?_of_ne {w c : Char} (differ : w ≠ c) (word rest : List Char) :
    dropWord? (w :: word) (c :: rest) = none := by
  simp [dropWord?, differ]

/-- A word is cut off where it is met first. -/
theorem cutAtWord?_append {w : Char} {front : List Char} (absent : w ∉ front)
    (word rest : List Char) :
    cutAtWord? (w :: word) (front ++ (w :: word ++ rest)) = some (front, rest) := by
  induction front with
  | nil =>
    have begins := dropWord?_append (w :: word) rest
    rw [List.cons_append] at begins
    simp [cutAtWord?, begins]
  | cons c front ih =>
    rw [List.mem_cons, not_or] at absent
    rw [List.cons_append, cutAtWord?, dropWord?_of_ne absent.1, ih absent.2]
    rfl

theorem cutAtWord?_of_not_mem {w : Char} {text : List Char} (absent : w ∉ text)
    (word : List Char) : cutAtWord? (w :: word) text = none := by
  induction text with
  | nil => rfl
  | cons c text ih =>
    rw [List.mem_cons, not_or] at absent
    rw [cutAtWord?, dropWord?_of_ne absent.1, ih absent.2]
    rfl

theorem cutAt?_append {p : Char → Bool} {front : List Char} (bare : ∀ c ∈ front, p c = false)
    {c : Char} (here : p c = true) (rest : List Char) :
    cutAt? p (front ++ c :: rest) = some (front, rest) := by
  induction front with
  | nil => simp [cutAt?, here]
  | cons d front ih =>
    obtain ⟨first, bare⟩ := List.forall_mem_cons.mp bare
    simp [cutAt?, first, ih bare]

theorem cutAt?_eq_none {p : Char → Bool} {text : List Char} (bare : ∀ c ∈ text, p c = false) :
    cutAt? p text = none := by
  induction text with
  | nil => rfl
  | cons c text ih =>
    obtain ⟨first, bare⟩ := List.forall_mem_cons.mp bare
    simp [cutAt?, first, ih bare]

theorem cutAtLast?_append {separator : Char} {rest : List Char} (absent : separator ∉ rest)
    (front : List Char) :
    cutAtLast? separator (front ++ separator :: rest) = some (front, rest) := by
  have bare : ∀ c ∈ rest.reverse, (c == separator) = false := fun c mem =>
    beq_false_of_ne fun same => absent (same ▸ List.mem_reverse.mp mem)
  rw [cutAtLast?, List.reverse_append, List.reverse_cons, List.append_assoc, List.singleton_append,
    cutAt?_append bare (BEq.refl _)]
  simp

theorem cutAtLast?_of_not_mem {separator : Char} {text : List Char} (absent : separator ∉ text) :
    cutAtLast? separator text = none := by
  have bare : ∀ c ∈ text.reverse, (c == separator) = false := fun c mem =>
    beq_false_of_ne fun same => absent (same ▸ List.mem_reverse.mp mem)
  rw [cutAtLast?, cutAt?_eq_none bare]
  rfl

end Text

end ChangeImpact
