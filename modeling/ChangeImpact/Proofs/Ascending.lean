import ChangeImpact.Ascending

/-!
# Sorted lists

A stable sort by a total and transitive order gives a sorted list, and the distinct elements of a
list are listed in strictly ascending order.
-/

namespace ChangeImpact.Ascending

variable {le : α → α → Bool}

theorem mem_insertBy {x y : α} {xs : List α} : y ∈ insertBy le x xs ↔ y = x ∨ y ∈ xs := by
  rw [(perm_insertBy le x xs).mem_iff, List.mem_cons]

theorem pairwise_insertBy (total : ∀ a b, le a b = false → le b a = true)
    (trans : ∀ a b c, le a b = true → le b c = true → le a c = true) (x : α) {xs : List α}
    (sorted : xs.Pairwise fun a b => le a b = true) :
    (insertBy le x xs).Pairwise fun a b => le a b = true := by
  induction xs with
  | nil => simp [insertBy]
  | cons y rest ih =>
    obtain ⟨first, tail⟩ := List.pairwise_cons.mp sorted
    unfold insertBy
    split
    · next before =>
      refine List.pairwise_cons.mpr ⟨fun z mem => ?_, sorted⟩
      rcases List.mem_cons.mp mem with rfl | later
      · exact before
      · exact trans x y z before (first z later)
    · next after =>
      refine List.pairwise_cons.mpr ⟨fun z mem => ?_, ih tail⟩
      rcases mem_insertBy.mp mem with rfl | later
      · exact total _ _ (by simpa using after)
      · exact first z later

theorem pairwise_sortBy (total : ∀ a b, le a b = false → le b a = true)
    (trans : ∀ a b c, le a b = true → le b c = true → le a c = true) (xs : List α) :
    (sortBy le xs).Pairwise fun a b => le a b = true := by
  induction xs with
  | nil => exact List.Pairwise.nil
  | cons x rest ih => exact pairwise_insertBy total trans x ih

/-- A list that ascends by a key is what sorting by the key gives of its elements in any order. -/
theorem sortByKey_eq_of_perm {key : α → Nat} {xs ys : List α} (perm : xs.Perm ys)
    (ascending : ys.Pairwise fun a b => key a < key b) : sortByKey key xs = ys := by
  have sorted : (sortByKey key xs).Pairwise fun a b => key a ≤ key b := by
    refine (pairwise_sortBy ?_ ?_ xs).imp of_decide_eq_true
    · intro a b after
      simp only [decide_eq_false_iff_not, decide_eq_true_eq] at after ⊢
      omega
    · intro a b c before before'
      simp only [decide_eq_true_eq] at before before' ⊢
      exact Nat.le_trans before before'
  have same : (sortByKey key xs).Perm ys := (perm_sortBy _ xs).trans perm
  have distinct : (sortByKey key xs).Pairwise fun a b => key a ≠ key b :=
    (same.pairwise_iff Ne.symm).mpr (ascending.imp Nat.ne_of_lt)
  have strict : (sortByKey key xs).Pairwise fun a b => key a < key b :=
    sorted.imp₂ (fun _ _ => Nat.lt_of_le_of_ne) distinct
  refine same.eq_of_pairwise (fun a b _ _ before after => ?_) strict ascending
  exact absurd after (Nat.lt_asymm before)

theorem pairwise_sortStrings (strings : List String) :
    (sortStrings strings).Pairwise (· ≤ ·) := by
  refine (pairwise_sortBy ?_ ?_ strings).imp of_decide_eq_true
  · intro a b after
    exact decide_eq_true ((String.le_total a b).resolve_left (of_decide_eq_false after))
  · intro a b c before before'
    exact decide_eq_true (String.le_trans (of_decide_eq_true before) (of_decide_eq_true before'))

theorem sortStrings_eq_of_perm {strings others : List String} (perm : strings.Perm others) :
    sortStrings strings = sortStrings others := by
  have same : (sortStrings strings).Perm (sortStrings others) :=
    ((perm_sortBy _ _).trans perm).trans (perm_sortBy _ _).symm
  exact same.eq_of_pairwise (fun a b _ _ before after => String.le_antisymm before after)
    (pairwise_sortStrings strings) (pairwise_sortStrings others)

theorem pairwise_insert [LT α] [DecidableLT α] [DecidableEq α]
    (trans : ∀ a b c : α, a < b → b < c → a < c) (total : ∀ a b : α, ¬ a < b → a ≠ b → b < a)
    (x : α) {xs : List α} (ascending : xs.Pairwise (· < ·)) :
    (insert x xs).Pairwise (· < ·) := by
  induction xs with
  | nil => simp [insert]
  | cons y rest ih =>
    obtain ⟨first, tail⟩ := List.pairwise_cons.mp ascending
    unfold insert
    split
    · next less =>
      refine List.pairwise_cons.mpr ⟨?_, ascending⟩
      intro z mem
      rcases List.mem_cons.mp mem with rfl | later
      · exact less
      · exact trans x y z less (first z later)
    · next notLess =>
      split
      · exact ascending
      · next differ =>
        refine List.pairwise_cons.mpr ⟨?_, ih tail⟩
        intro z mem
        rcases mem_insert.mp mem with rfl | later
        · exact total _ _ notLess differ
        · exact first z later

theorem pairwise_ofList_of [LT α] [DecidableLT α] [DecidableEq α]
    (trans : ∀ a b c : α, a < b → b < c → a < c) (total : ∀ a b : α, ¬ a < b → a ≠ b → b < a)
    (xs : List α) : (ofList xs).Pairwise (· < ·) := by
  induction xs with
  | nil => exact List.Pairwise.nil
  | cons x rest ih => exact pairwise_insert trans total x ih

theorem pairwise_ofList (strings : List String) : (ofList strings).Pairwise (· < ·) := by
  refine pairwise_ofList_of (fun _ _ _ => String.lt_trans) ?_ strings
  intro a b notLess differ
  apply String.not_le.mp
  intro le
  exact differ (String.le_antisymm le (String.not_lt.mp notLess))

theorem pairwise_ofList_nat (numbers : List Nat) : (ofList numbers).Pairwise (· < ·) :=
  pairwise_ofList_of (fun _ _ _ => Nat.lt_trans) (fun a b notLess differ => by omega) numbers

theorem nodup_ofList (strings : List String) : (ofList strings).Nodup := by
  refine (pairwise_ofList strings).imp ?_
  intro a b less same
  subst same
  exact String.lt_irrefl a less

/-- The order in which elements come does not matter, and how often they come does not either. -/
theorem ofList_congr {strings others : List String}
    (same : ∀ text, text ∈ strings ↔ text ∈ others) : ofList strings = ofList others := by
  have perm : (ofList strings).Perm (ofList others) := by
    refine (List.perm_ext_iff_of_nodup (nodup_ofList _) (nodup_ofList _)).mpr fun text => ?_
    rw [mem_ofList, mem_ofList, same]
  refine perm.eq_of_pairwise ?_ (pairwise_ofList _) (pairwise_ofList _)
  intro a b _ _ less greater
  exact absurd (String.lt_trans less greater) (String.lt_irrefl a)

end ChangeImpact.Ascending
