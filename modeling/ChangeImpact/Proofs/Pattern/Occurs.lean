import ChangeImpact.Proofs.Pattern.Preferred

/-!
# Where a pattern occurs

A search of a text gives an answer exactly if the pattern matches somewhere in it. The ways in which
the forms of a pattern match at a place are said exactly, one lemma for each form, so that a search
for a word between two conditions comes down to a split of the text.
-/

namespace ChangeImpact

theorem Trace.past_past (trace : Trace) (front middle back rest : List Char) :
    (trace.past front middle).past back rest = trace.past (front ++ back) rest := by
  simp only [Trace.past, Cursor.past_past]

theorem Trace.past_nil (trace : Trace) : trace.past [] trace.place.rest = trace := rfl

namespace Pattern

variable {p first second : Pattern} {trace next : Trace}

/-! ## The ways of each form -/

theorem mem_results_seq_iff : next ∈ (seq first second).results trace ↔
    ∃ middle ∈ first.results trace, next ∈ second.results middle :=
  List.mem_flatMap

theorem mem_results_alt_iff : next ∈ (alt first second).results trace ↔
    next ∈ first.results trace ∨ next ∈ second.results trace :=
  List.mem_append

theorem mem_results_anchor_iff {condition : Anchor} :
    next ∈ (anchor condition).results trace ↔
      condition.holds trace.place = true ∧ next = trace := by
  unfold results
  split
  · next holds => simp [holds]
  · next fails => simp [fails]

theorem mem_results_one_iff {class' : Char → Bool} : next ∈ (one class').results trace ↔
    ∃ c rest, trace.place.rest = c :: rest ∧ class' c = true ∧ next = trace.past [c] rest := by
  constructor
  · intro mem
    obtain ⟨c, rest, text, holds, rfl⟩ := mem_results_one mem
    exact ⟨c, rest, text, holds, rfl⟩
  · rintro ⟨c, rest, text, holds, rfl⟩
    exact List.mem_of_head? (prefers_one text holds)

theorem mem_results_char_iff {c : Char} : next ∈ (char c).results trace ↔
    ∃ rest, trace.place.rest = c :: rest ∧ next = trace.past [c] rest := by
  rw [char, mem_results_one_iff]
  constructor
  · rintro ⟨d, rest, text, same, rfl⟩
    obtain rfl : d = c := beq_iff_eq.mp same
    exact ⟨rest, text, rfl⟩
  · rintro ⟨rest, text, rfl⟩
    exact ⟨c, rest, text, beq_self_eq_true c, rfl⟩

theorem mem_results_opt_iff : next ∈ (opt p).results trace ↔
    next ∈ p.results trace ∨ next = trace :=
  mem_results_alt_iff.trans (or_congr_right List.mem_singleton)

theorem mem_results_lit_iff {word : String} : next ∈ (lit word).results trace ↔
    ∃ rest, trace.place.rest = word.toList ++ rest ∧ next = trace.past word.toList rest := by
  constructor
  · unfold lit
    generalize word.toList = letters
    intro mem
    induction letters generalizing trace with
    | nil =>
      obtain rfl := List.mem_singleton.mp mem
      exact ⟨_, rfl, (Trace.past_nil _).symm⟩
    | cons c letters ih =>
      cases letters with
      | nil => exact mem_results_char_iff.mp mem
      | cons e letters =>
        obtain ⟨middle, step, onward⟩ := mem_results_seq_iff.mp mem
        obtain ⟨after, text, rfl⟩ := mem_results_char_iff.mp step
        obtain ⟨rest, further, rfl⟩ := ih onward
        obtain rfl : after = e :: letters ++ rest := further
        exact ⟨rest, text, Trace.past_past trace [c] _ _ rest⟩
  · rintro ⟨rest, text, rfl⟩
    exact List.mem_of_head? (prefers_lit text)

/-! ## Searching -/

theorem isSome_matchAt?_iff {place : Cursor} :
    (p.matchAt? place).isSome = true ↔ ∃ next, next ∈ p.results ⟨place, []⟩ := by
  rw [matchAt?, Option.isSome_map, List.isSome_head?]
  refine ⟨List.exists_mem_of_ne_nil _, ?_⟩
  rintro ⟨next, mem⟩
  exact List.ne_nil_of_mem mem

/-- A search from a place on finds something exactly if the pattern matches there or later. -/
theorem isSome_firstMatchFrom?_iff {before : Option Char} {offset : Nat} {text : List Char} :
    (p.firstMatchFrom? before offset text).isSome = true ↔
      ∃ front rest, text = front ++ rest ∧
        ∃ next, next ∈ p.results ⟨Cursor.past ⟨before, text, offset⟩ front rest, []⟩ := by
  induction text generalizing before offset with
  | nil =>
    rw [firstMatchFrom?, isSome_matchAt?_iff]
    constructor
    · rintro ⟨next, mem⟩
      exact ⟨[], [], rfl, next, mem⟩
    · rintro ⟨front, rest, text, next, mem⟩
      obtain ⟨rfl, rfl⟩ := List.append_eq_nil_iff.mp text.symm
      exact ⟨next, mem⟩
  | cons c text ih =>
    have here := @isSome_matchAt?_iff p ⟨before, c :: text, offset⟩
    have later := @ih (some c) (offset + c.utf8Size)
    simp only [Cursor.past_cons before c offset] at later
    cases found : p.matchAt? ⟨before, c :: text, offset⟩ with
    | some one =>
      rw [found] at here
      simp only [firstMatchFrom?, found]
      exact ⟨fun _ => ⟨[], c :: text, rfl, here.mp rfl⟩, fun _ => rfl⟩
    | none =>
      rw [found] at here
      simp only [firstMatchFrom?, found, later]
      constructor
      · rintro ⟨front, rest, rfl, reached⟩
        exact ⟨c :: front, rest, rfl, reached⟩
      · rintro ⟨front, rest, split, reached⟩
        cases front with
        | nil =>
          obtain rfl : c :: text = rest := split
          exact absurd (here.mpr reached) (by simp)
        | cons d front =>
          obtain ⟨rfl, rfl⟩ := List.cons.inj split
          exact ⟨front, rest, rfl, reached⟩

/-- A pattern occurs in a text exactly if it matches at one of the places of the text. -/
theorem occursIn_iff {text : List Char} : p.occursIn text = true ↔
    ∃ front rest, text = front ++ rest ∧
      ∃ next, next ∈ p.results ⟨Cursor.past ⟨none, text, 0⟩ front rest, []⟩ :=
  isSome_firstMatchFrom?_iff

end Pattern

end ChangeImpact
