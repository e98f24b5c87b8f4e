import ChangeImpact.Proofs.Json.Scalar
import ChangeImpact.Proofs.Weight

/-!
# Weights in JSON

A weight is written as the decimal fraction that equals it, so that nothing is rounded when it is
read again.
-/

namespace ChangeImpact.Weight

/-- The decimal fraction is the weight, signs of zeros kept apart. Both sides count units of
`2 ^ (-149)`. -/
def Equals (weight : Weight) (fraction : DecimalFraction) : Prop :=
  fraction.negative = weight.negative ∧
    fraction.coefficient * Nat.pow 2 149 =
      weight.significand * Nat.pow 2 weight.exponent * Nat.pow 10 fraction.places

theorem pow_pos (base exponent : Nat) (pos : 0 < base) : 0 < Nat.pow base exponent :=
  Nat.pow_pos pos

/-! ## Reading -/

theorem log2_mul_pow {n : Nat} (pos : 0 < n) (k : Nat) :
    Nat.log2 (n * Nat.pow 2 k) = Nat.log2 n + k := by
  obtain ⟨low, high⟩ := (Nat.log2_eq_iff (Nat.ne_of_gt pos)).mp rfl
  have power := pow_pos 2 k (by decide)
  refine (Nat.log2_eq_iff (Nat.ne_of_gt (Nat.mul_pos pos power))).mpr ⟨?_, ?_⟩
  · rw [Nat.pow_add]
    exact Nat.mul_le_mul_right _ low
  · rw [Nat.add_right_comm, Nat.pow_add]
    exact Nat.mul_lt_mul_of_pos_right high power

/-- A significand has its 24 binary digits, unless the exponent is the least one. -/
theorem exponentOf_mul (weight : Weight) {den : Nat} (pos : 0 < den) :
    exponentOf (weight.significand * Nat.pow 2 weight.exponent * den) den = weight.exponent := by
  obtain ⟨negative, significand, exponent, bounded, normal, -⟩ := weight
  simp only [exponentOf, Nat.mul_div_cancel _ pos]
  rcases Nat.eq_zero_or_pos significand with rfl | nonzero
  · have least : exponent = 0 := by omega
    subst least
    decide
  · have digits : Nat.log2 significand < 24 := (Nat.log2_lt (Nat.ne_of_gt nonzero)).mpr bounded
    rw [log2_mul_pow nonzero]
    rcases normal with rfl | low
    · omega
    · have least : 23 ≤ Nat.log2 significand := (Nat.le_log2 (Nat.ne_of_gt nonzero)).mpr low
      omega

/-- A fraction that is a weight is read as this weight. -/
theorem ofDecimal?_of_equals {weight : Weight} {fraction : DecimalFraction}
    (equals : weight.Equals fraction) : ofDecimal? fraction = some weight := by
  obtain ⟨sign, value⟩ := equals
  have pos := pow_pos 10 fraction.places (by decide)
  have unit := pow_pos 2 weight.exponent (by decide)
  have rounded : roundQuotient (fraction.coefficient * Nat.pow 2 149)
      (Nat.pow 10 fraction.places * Nat.pow 2 weight.exponent) = weight.significand := by
    rw [value, Nat.mul_assoc, Nat.mul_comm (Nat.pow 2 weight.exponent)]
    exact roundQuotient_mul (Nat.mul_pos pos unit)
  have exponent : exponentOf (fraction.coefficient * Nat.pow 2 149) (Nat.pow 10 fraction.places) =
      weight.exponent := by
    rw [value, exponentOf_mul weight pos]
  have range := weight.significand_lt
  have parts : weight.significand < 0x1000000 ∧
      (weight.exponent = 0 ∨ 0x800000 ≤ weight.significand) ∧ weight.exponent ≤ 253 :=
    ⟨weight.significand_lt, weight.normal, weight.exponent_le⟩
  simp only [ofDecimal?, ofQuotient?, exponent, rounded, Nat.ne_of_lt range, if_false, ofParts?,
    dif_pos parts, sign]

/-! ## Writing -/

theorem stripZeros_negative (fuel : Nat) (fraction : DecimalFraction) :
    (stripZeros fuel fraction).negative = fraction.negative := by
  induction fuel generalizing fraction with
  | zero => rfl
  | succ fuel ih =>
    rw [stripZeros]
    split
    · exact ih _
    · rfl

/-- Zeros are dropped at the end of the places only. -/
theorem stripZeros_value (fuel : Nat) (fraction : DecimalFraction) :
    (stripZeros fuel fraction).coefficient * Nat.pow 10 fraction.places =
      fraction.coefficient * Nat.pow 10 (stripZeros fuel fraction).places := by
  induction fuel generalizing fraction with
  | zero => rfl
  | succ fuel ih =>
    rw [stripZeros]
    split
    · next drop =>
      simp only [Bool.and_eq_true, decide_eq_true_eq, beq_iff_eq] at drop
      have later := ih ⟨fraction.negative, fraction.coefficient / 10, fraction.places - 1⟩
      have places : Nat.pow 10 fraction.places = Nat.pow 10 (fraction.places - 1) * 10 := by
        rw [Nat.pow_eq, Nat.pow_eq, ← Nat.pow_succ, Nat.succ_eq_add_one,
          Nat.sub_add_cancel (by omega)]
      have whole : fraction.coefficient = fraction.coefficient / 10 * 10 := by omega
      rw [places, ← Nat.mul_assoc, later, Nat.mul_right_comm, ← whole]
    · rfl

theorem stripZeros_places (fuel : Nat) (fraction : DecimalFraction) (pos : 1 ≤ fraction.places) :
    1 ≤ (stripZeros fuel fraction).places ∧
      (stripZeros fuel fraction).places ≤ fraction.places := by
  induction fuel generalizing fraction with
  | zero => exact ⟨pos, Nat.le_refl _⟩
  | succ fuel ih =>
    rw [stripZeros]
    split
    · next drop =>
      simp only [Bool.and_eq_true, decide_eq_true_eq, beq_iff_eq] at drop
      have later := @ih ⟨fraction.negative, fraction.coefficient / 10, fraction.places - 1⟩
        (Nat.le_sub_one_of_lt drop.1)
      exact ⟨later.1, by have := later.2; simp only at this; omega⟩
    · exact ⟨pos, Nat.le_refl _⟩

theorem stripZeros_zero {fuel : Nat} {fraction : DecimalFraction} (zero : fraction.coefficient = 0)
    (pos : 1 ≤ fraction.places) (enough : fraction.places ≤ fuel + 1) :
    (stripZeros fuel fraction).places = 1 := by
  induction fuel generalizing fraction with
  | zero => exact Nat.le_antisymm enough pos
  | succ fuel ih =>
    rw [stripZeros]
    split
    · next drop =>
      simp only [Bool.and_eq_true, decide_eq_true_eq, beq_iff_eq] at drop
      refine ih (by simp [zero]) (Nat.le_sub_one_of_lt drop.1) ?_
      simp only
      omega
    · next keep =>
      simp only [zero, Nat.zero_mod, beq_self_eq_true, Bool.and_true, decide_eq_true_eq] at keep
      omega

theorem equals_toDecimal (weight : Weight) : weight.Equals weight.toDecimal := by
  rw [toDecimal]
  split
  · next whole =>
    have exponent : Nat.pow 2 weight.exponent =
        Nat.pow 2 (weight.exponent - 149) * Nat.pow 2 149 := by
      rw [Nat.pow_eq, Nat.pow_eq, Nat.pow_eq, ← Nat.pow_add, Nat.sub_add_cancel whole]
    refine ⟨rfl, ?_⟩
    simp only [exponent, show Nat.pow 10 1 = 10 from rfl]
    simp only [Nat.mul_comm, Nat.mul_left_comm]
  · next fractional =>
    generalize places_eq : 149 - weight.exponent = places
    have power : Nat.pow 2 149 = Nat.pow 2 weight.exponent * Nat.pow 2 places := by
      rw [Nat.pow_eq, Nat.pow_eq, Nat.pow_eq, ← Nat.pow_add,
        show weight.exponent + places = 149 by omega]
    have ten : Nat.pow 10 places = Nat.pow 2 places * Nat.pow 5 places := by
      rw [Nat.pow_eq, Nat.pow_eq, Nat.pow_eq, ← Nat.mul_pow]
    have value := stripZeros_value places
      ⟨weight.negative, weight.significand * Nat.pow 5 places, places⟩
    refine ⟨stripZeros_negative _ _, ?_⟩
    simp only at value ⊢
    generalize stripZeros places ⟨weight.negative, weight.significand * Nat.pow 5 places, places⟩ =
      stripped at value ⊢
    -- The five in each ten that was dropped is left on both sides.
    refine Nat.mul_right_cancel (pow_pos 5 places (by decide)) ?_
    calc stripped.coefficient * Nat.pow 2 149 * Nat.pow 5 places
      _ = stripped.coefficient * Nat.pow 10 places * Nat.pow 2 weight.exponent := by
        rw [power, ten]
        simp only [Nat.mul_assoc, Nat.mul_comm, Nat.mul_left_comm]
      _ = weight.significand * Nat.pow 2 weight.exponent * Nat.pow 10 stripped.places *
          Nat.pow 5 places := by
        rw [value]
        simp only [Nat.mul_assoc, Nat.mul_comm, Nat.mul_left_comm]

theorem toDecimal_places (weight : Weight) :
    1 ≤ weight.toDecimal.places ∧ weight.toDecimal.places ≤ 149 := by
  rw [toDecimal]
  split
  · exact ⟨Nat.le_refl 1, (by decide : 1 ≤ 149)⟩
  · next fractional =>
    have bounds := stripZeros_places (149 - weight.exponent)
      ⟨weight.negative, weight.significand * Nat.pow 5 (149 - weight.exponent),
        149 - weight.exponent⟩ (by simp only; omega)
    refine ⟨bounds.1, Nat.le_trans bounds.2 ?_⟩
    simp only
    omega

theorem toDecimal_zero {weight : Weight} (zero : weight.toDecimal.coefficient = 0) :
    weight.toDecimal.places = 1 := by
  have none : weight.significand = 0 := by
    have value := (equals_toDecimal weight).2
    rw [zero, Nat.zero_mul] at value
    have nonzero := Nat.mul_pos (pow_pos 2 weight.exponent (by decide))
      (pow_pos 10 weight.toDecimal.places (by decide))
    rw [Nat.mul_assoc] at value
    exact (Nat.mul_eq_zero.mp value.symm).resolve_right (Nat.ne_of_gt nonzero)
  rw [toDecimal]
  split
  · rfl
  · next fractional =>
    refine stripZeros_zero (by simp [none]) ?_ (Nat.le_succ _)
    simp only
    omega

theorem isPlain_toDecimal (weight : Weight) : Json.IsPlain weight.toDecimal := by
  obtain ⟨pos, le⟩ := toDecimal_places weight
  refine ⟨pos, Nat.le_trans le (by decide), toDecimal_zero, ?_⟩
  have value := (equals_toDecimal weight).2
  have limit : weight.significand * Nat.pow 2 weight.exponent < Nat.pow 10 200 * Nat.pow 2 149 := by
    have exponent : Nat.pow 2 weight.exponent ≤ Nat.pow 2 253 :=
      Nat.pow_le_pow_right (by decide) weight.exponent_le
    calc weight.significand * Nat.pow 2 weight.exponent
      _ ≤ 0x1000000 * Nat.pow 2 253 :=
        Nat.mul_le_mul (Nat.le_of_lt weight.significand_lt) exponent
      _ < Nat.pow 10 200 * Nat.pow 2 149 := by decide
  refine Nat.lt_of_mul_lt_mul_right (a := Nat.pow 2 149) ?_
  calc weight.toDecimal.coefficient * Nat.pow 2 149
    _ = weight.significand * Nat.pow 2 weight.exponent * Nat.pow 10 weight.toDecimal.places := value
    _ < Nat.pow 10 200 * Nat.pow 2 149 * Nat.pow 10 weight.toDecimal.places :=
      Nat.mul_lt_mul_of_pos_right limit (pow_pos 10 _ (by decide))
    _ = Nat.pow 10 (weight.toDecimal.places + 200) * Nat.pow 2 149 := by
      rw [Nat.pow_eq, Nat.pow_eq, Nat.pow_eq, Nat.pow_eq, Nat.pow_add]
      simp only [Nat.mul_assoc, Nat.mul_comm]

theorem ofDecimal?_toDecimal (weight : Weight) : ofDecimal? weight.toDecimal = some weight :=
  ofDecimal?_of_equals (equals_toDecimal weight)

end ChangeImpact.Weight
