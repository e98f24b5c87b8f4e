/-!
# Decimal digits

The digits of a number with zeros before them: all are digits, and they stand for the number.
-/

namespace ChangeImpact.Text

theorem isDigit_of_mem_toDigits {n : Nat} : ∀ c ∈ Nat.toDigits 10 n, c.isDigit = true :=
  fun _ mem => Nat.isDigit_of_mem_toDigits (by decide) (by decide) mem

theorem isDigit_of_mem_padded {count n : Nat} :
    ∀ c ∈ List.replicate count '0' ++ Nat.toDigits 10 n, c.isDigit = true := by
  intro c mem
  rcases List.mem_append.mp mem with pad | digit
  · rw [List.eq_of_mem_replicate pad]
    rfl
  · exact isDigit_of_mem_toDigits c digit

theorem ofDigitChars_padded (count n : Nat) :
    Nat.ofDigitChars 10 (List.replicate count '0' ++ Nat.toDigits 10 n) 0 = n := by
  have zeros : Nat.ofDigitChars 10 (List.replicate count '0') 0 = 0 := by
    induction count with
    | zero => rfl
    | succ count ih => rw [List.replicate_succ, Nat.ofDigitChars_cons]; exact ih
  rw [Nat.ofDigitChars_append, zeros]
  exact Nat.ofDigitChars_toDigits (by decide) (by decide)

end ChangeImpact.Text
