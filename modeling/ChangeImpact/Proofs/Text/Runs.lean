import Mathlib.Data.List.SplitBy
import ChangeImpact.Proofs.Text.Rewriting

/-!
# Runs of letters

A text is cut into runs, the longest stretches of letters and of other characters. Rewriting the
occurrences of a word that no letter touches changes the runs that are the word and no other one. A
run keeps its kind when a word takes the place of a word, so the runs of what comes out are the runs
with the words changed, and changing them back restores the text.
-/

namespace ChangeImpact.Text

/-- The longest stretches of a text that are of letters, or of other characters. -/
def runs (letter : Char → Bool) (text : List Char) : List (List Char) :=
  text.splitBy fun c d => letter c == letter d

def swap (old new run : List Char) : List Char :=
  if run = old then new else run

/-- Pieces of letters and of other characters in turn; the index is the kind of the first. -/
inductive Alternates (letter : Char → Bool) : Bool → List (List Char) → Prop
  | nil {kind : Bool} : Alternates letter kind []
  | cons {kind : Bool} {piece : List Char} {pieces : List (List Char)} (nonempty : piece ≠ [])
      (alike : ∀ c ∈ piece, letter c = kind) (further : Alternates letter (!kind) pieces) :
      Alternates letter kind (piece :: pieces)

variable {letter : Char → Bool} {kind : Bool} {old new text piece rest out : List Char}
  {pieces : List (List Char)} {last : Option Char}

/-! ## Cutting a text -/

theorem exists_alternates (letter : Char → Bool) (text : List Char) :
    ∃ kind pieces, Alternates letter kind pieces ∧ text = pieces.flatten := by
  induction text with
  | nil => exact ⟨true, [], .nil, rfl⟩
  | cons c text ih =>
    obtain ⟨kind, pieces, alternates, rfl⟩ := ih
    cases alternates with
    | nil => exact ⟨letter c, [[c]], .cons (List.cons_ne_nil c []) (by simp) .nil, rfl⟩
    | @cons _ piece pieces nonempty alike further =>
      by_cases same : letter c = kind
      · refine ⟨kind, (c :: piece) :: pieces, .cons (List.cons_ne_nil c piece) ?_ further, rfl⟩
        exact List.forall_mem_cons.mpr ⟨same, alike⟩
      · have other : kind = !letter c := Bool.eq_not.mpr (Ne.symm same)
        subst other
        exact ⟨letter c, [c] :: piece :: pieces, .cons (List.cons_ne_nil c []) (by simp)
          (.cons nonempty alike further), rfl⟩

namespace Alternates

theorem ne_nil (alternates : Alternates letter kind pieces) : ∀ piece ∈ pieces, piece ≠ [] := by
  induction alternates with
  | nil => exact List.forall_mem_nil _
  | cons nonempty alike further ih => exact List.forall_mem_cons.mpr ⟨nonempty, ih⟩

theorem head_eq (alternates : Alternates letter kind pieces) :
    ∀ piece ∈ pieces.head?, ∀ c ∈ piece, letter c = kind := by
  cases alternates with
  | nil => simp
  | cons nonempty alike further =>
    rintro _ ⟨⟩
    exact alike

theorem head?_flatten (alternates : Alternates letter kind pieces) :
    ∀ c ∈ pieces.flatten.head?, letter c = kind := by
  cases alternates with
  | nil => simp
  | cons nonempty alike further =>
    obtain ⟨c, piece, rfl⟩ := List.exists_cons_of_ne_nil nonempty
    rintro _ ⟨⟩
    exact alike c List.mem_cons_self

/-- Pieces of two kinds in turn are the runs of the text that they make up. -/
theorem runs_flatten (alternates : Alternates letter kind pieces) :
    runs letter pieces.flatten = pieces := by
  refine List.splitBy_flatten (fun mem => alternates.ne_nil [] mem rfl) ?_ ?_
  · induction alternates with
    | nil => exact List.forall_mem_nil _
    | cons nonempty alike further ih =>
      refine List.forall_mem_cons.mpr ⟨?_, ih⟩
      refine (List.pairwise_iff_forall_sublist.mpr fun {c d} sub => ?_).isChain
      rw [alike c (sub.subset (by simp)), alike d (sub.subset (by simp)), beq_self_eq_true]
  · induction alternates with
    | nil => exact .nil
    | cons nonempty alike further ih =>
      refine List.isChain_cons.mpr ⟨fun next mem => ?_, ih⟩
      have nonempty' := further.ne_nil next (List.mem_of_mem_head? mem)
      refine ⟨nonempty, nonempty', ?_⟩
      rw [alike _ (List.getLast_mem nonempty), further.head_eq next mem _ (List.head_mem nonempty')]
      exact Bool.beq_not_self _

/-- A word in the place of a word leaves the kinds as they are. -/
theorem map_swap (isOld : IsWordOf letter old) (isNew : IsWordOf letter new)
    (alternates : Alternates letter kind pieces) :
    Alternates letter kind (pieces.map (swap old new)) := by
  induction alternates with
  | nil => exact .nil
  | @cons kind piece pieces nonempty alike further ih =>
    by_cases same : piece = old
    · obtain ⟨c, mem⟩ := List.exists_mem_of_ne_nil _ nonempty
      have letters : kind = true := alike c mem ▸ isOld.letters c (same ▸ mem)
      subst letters
      have swapped : swap old new piece = new := if_pos same
      rw [List.map_cons, swapped]
      exact .cons isNew.nonempty isNew.letters ih
    · have kept : swap old new piece = piece := if_neg same
      rw [List.map_cons, kept]
      exact .cons nonempty alike ih

end Alternates

theorem exists_alternates_runs (letter : Char → Bool) (text : List Char) :
    ∃ kind, Alternates letter kind (runs letter text) ∧ (runs letter text).flatten = text := by
  obtain ⟨kind, pieces, alternates, rfl⟩ := exists_alternates letter text
  rw [alternates.runs_flatten]
  exact ⟨kind, alternates, rfl⟩

theorem runs_map_swap (isOld : IsWordOf letter old) (isNew : IsWordOf letter new)
    (text : List Char) :
    runs letter ((runs letter text).map (swap old new)).flatten =
      (runs letter text).map (swap old new) := by
  obtain ⟨kind, alternates, -⟩ := exists_alternates_runs letter text
  exact (alternates.map_swap isOld isNew).runs_flatten

/-- Where the new word is none of the runs, changing it back restores them. -/
theorem map_swap_map_swap (absent : new ∉ pieces) :
    (pieces.map (swap old new)).map (swap new old) = pieces := by
  have restored : ∀ piece ∈ pieces, swap new old (swap old new piece) = piece := by
    intro piece mem
    have differ : piece ≠ new := fun same => absent (same ▸ mem)
    by_cases same : piece = old <;> simp [swap, same, differ]
  rw [List.map_map]
  exact (List.map_congr_left restored).trans (List.map_id pieces)

/-! ## Rewriting the runs -/

theorem Rewrites.copy_others (isOld : IsWordOf letter old) (others : ∀ c ∈ piece, letter c = false)
    (rewrites : Rewrites (Whole letter) old new (piece.getLast?.or last) rest out) :
    Rewrites (Whole letter) old new last (piece ++ rest) (piece ++ out) := by
  induction piece generalizing last with
  | nil => exact rewrites
  | cons c piece ih =>
    obtain ⟨other, others⟩ := List.forall_mem_cons.mp others
    rw [getLast?_cons_or] at rewrites
    refine .kept (fun after split => ?_) (ih others rewrites)
    obtain ⟨d, tail, rfl⟩ := List.exists_cons_of_ne_nil isOld.nonempty
    have same : c = d := (List.cons.inj split).1
    have letters := isOld.letters d List.mem_cons_self
    simp [← same, other] at letters

/-- The runs that are the old word are rewritten, and no others. -/
theorem Alternates.rewrites (isOld : IsWordOf letter old) (new : List Char)
    (alternates : Alternates letter kind pieces)
    (apart : kind = true → last.any letter = false) :
    Rewrites (Whole letter) old new last pieces.flatten
      (pieces.map (swap old new)).flatten := by
  induction alternates generalizing last with
  | nil => exact .done
  | @cons kind piece pieces nonempty alike further ih =>
    rw [List.flatten_cons, List.map_cons, List.flatten_cons]
    cases kind with
    | false =>
      have kept : swap old new piece = piece := by
        refine if_neg fun same => ?_
        obtain ⟨c, mem⟩ := List.exists_mem_of_ne_nil _ nonempty
        have letters := isOld.letters c (same ▸ mem)
        simp [alike c mem] at letters
      rw [kept]
      refine .copy_others isOld alike (ih fun _ => ?_)
      rw [List.getLast?_eq_some_getLast nonempty, Option.some_or]
      exact alike _ (List.getLast_mem nonempty)
    | true =>
      have stops : pieces.flatten.head?.any letter = false := by
        cases first : pieces.flatten.head? with
        | none => rfl
        | some c => exact further.head?_flatten c first
      have isPiece : IsWordOf letter piece := ⟨nonempty, alike⟩
      have onward : ∀ last, Rewrites (Whole letter) old new last pieces.flatten
          (pieces.map (swap old new)).flatten := fun _ => ih (by simp)
      by_cases same : piece = old
      · have swapped : swap old new piece = new := if_pos same
        rw [swapped, same]
        exact .replaced ⟨apart rfl, stops⟩ (onward _)
      · have kept : swap old new piece = piece := if_neg same
        obtain ⟨c, tail, rfl, touched, letters, -⟩ := isPiece.exists_cons
        rw [kept]
        refine .kept (fun after split whole => ?_)
          (.copy (spares_whole letter) touched letters (onward _))
        exact same (isPiece.eq_of_append_eq isOld stops whole.2 split)

/-- Rewriting a word is changing the runs that are the word. -/
theorem rewrites_iff (isOld : IsWordOf letter old) :
    Rewrites (Whole letter) old new none text out ↔
      out = ((runs letter text).map (swap old new)).flatten := by
  obtain ⟨kind, alternates, whole⟩ := exists_alternates_runs letter text
  have rewrites : Rewrites (Whole letter) old new none (runs letter text).flatten
      ((runs letter text).map (swap old new)).flatten :=
    alternates.rewrites isOld new fun _ => rfl
  rw [whole] at rewrites
  constructor
  · exact fun other => other.unique (spares_whole letter) isOld rewrites
  · rintro rfl
    exact rewrites

end ChangeImpact.Text
