import ChangeImpact.Weight

/-!
# Counts as weights

A count of at most `2 ^ 24` is a weight, so that it is not rounded.
-/

namespace ChangeImpact.Weight

/-- The weight is a natural number; both sides count units of `2 ^ (-149)`. -/
def IsNat (weight : Weight) (n : Nat) : Prop :=
  weight.negative = false ∧ weight.significand * Nat.pow 2 weight.exponent = n * Nat.pow 2 149

theorem roundQuotient_mul {num den : Nat} (pos : 0 < den) : roundQuotient (num * den) den = num := by
  simp [roundQuotient, Nat.mul_mod_left, Nat.mul_div_cancel num pos, pos]

/-- A number with `k + 1` binary digits has 24 after `23 - k` more. -/
theorem scaled_mem_range {n k : Nat} (low : Nat.pow 2 k ≤ n) (high : n < Nat.pow 2 (k + 1))
    (small : k ≤ 23) :
    0x800000 ≤ n * Nat.pow 2 (23 - k) ∧ n * Nat.pow 2 (23 - k) < 0x1000000 := by
  have pos : 0 < Nat.pow 2 (23 - k) := Nat.pow_pos (by decide)
  have least : Nat.pow 2 k * Nat.pow 2 (23 - k) = 0x800000 := by
    rw [Nat.pow_eq, Nat.pow_eq, ← Nat.pow_add, show k + (23 - k) = 23 by omega]
  have bound : Nat.pow 2 (k + 1) * Nat.pow 2 (23 - k) = 0x1000000 := by
    rw [Nat.pow_eq, Nat.pow_eq, ← Nat.pow_add, show k + 1 + (23 - k) = 24 by omega]
  exact ⟨least ▸ Nat.mul_le_mul_right _ low, bound ▸ Nat.mul_lt_mul_of_pos_right high pos⟩

theorem exponentOf_scaled {n k : Nat} (low : Nat.pow 2 k ≤ n) (high : n < Nat.pow 2 (k + 1)) :
    exponentOf (n * Nat.pow 2 149) 1 = k + 126 := by
  have pos : 0 < Nat.pow 2 149 := Nat.pow_pos (by decide)
  have log : Nat.log2 (n * Nat.pow 2 149) = k + 149 := by
    have first : 0 < n := Nat.lt_of_lt_of_le (Nat.pow_pos (by decide)) low
    refine (Nat.log2_eq_iff (Nat.ne_of_gt (Nat.mul_pos first pos))).mpr ⟨?_, ?_⟩
    · rw [Nat.pow_add]
      exact Nat.mul_le_mul_right _ low
    · rw [show k + 149 + 1 = k + 1 + 149 by omega, Nat.pow_add]
      exact Nat.mul_lt_mul_of_pos_right high pos
  rw [exponentOf, Nat.div_one, log]
  omega

theorem isNat_ofNat {n : Nat} (le : n ≤ 0x1000000) : (ofNat n).IsNat n := by
  rcases Nat.eq_zero_or_pos n with rfl | pos
  · exact ⟨by decide, by decide⟩
  rcases Nat.eq_or_lt_of_le le with rfl | less
  · exact ⟨by decide, by decide⟩
  generalize k_eq : Nat.log2 n = k
  obtain ⟨low, high⟩ := (Nat.log2_eq_iff (Nat.ne_of_gt pos)).mp k_eq
  have small : k ≤ 23 := by
    have digits : Nat.log2 n < 24 := (Nat.log2_lt (Nat.ne_of_gt pos)).mpr less
    omega
  obtain ⟨normal, bounded⟩ := scaled_mem_range low high small
  have scaled : n * Nat.pow 2 149 = n * Nat.pow 2 (23 - k) * (1 * Nat.pow 2 (k + 126)) := by
    rw [Nat.one_mul, Nat.mul_assoc, Nat.pow_eq, Nat.pow_eq, Nat.pow_eq, ← Nat.pow_add,
      show 23 - k + (k + 126) = 149 by omega]
  have rounded : roundQuotient (n * Nat.pow 2 149) (1 * Nat.pow 2 (k + 126)) =
      n * Nat.pow 2 (23 - k) := by
    rw [scaled]
    exact roundQuotient_mul (by rw [Nat.one_mul]; exact Nat.pow_pos (by decide))
  have made : ofNat n = ⟨false, n * Nat.pow 2 (23 - k), k + 126, bounded, .inr normal, by omega⟩ := by
    rw [ofNat, ofQuotient?, exponentOf_scaled low high, rounded, if_neg (Nat.ne_of_lt bounded),
      ofParts?, dif_pos ⟨bounded, .inr normal, by omega⟩, Option.getD_some]
  rw [made]
  refine ⟨rfl, ?_⟩
  rw [scaled, Nat.one_mul]

end ChangeImpact.Weight
