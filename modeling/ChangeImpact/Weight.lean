/-!
# Edge weights

The finite binary floating-point numbers of 32 bits, as exact dyadic fractions. A weight is read
from a decimal fraction by rounding to the nearest one, a tie to the even significand, and is
written as the decimal fraction that equals it.

The decimal fraction stands for a value and not for digits: a text that is written with the fewest
digits which determine a weight has another fraction in it, to which the same weight is nearest. A
reader that rounds to 64 bits before it rounds to 32 may take a fraction close to the middle of two
weights for the other one. It reads a weight that is written exactly as it is here.
-/

namespace ChangeImpact

/-- The number `±significand · 2 ^ (exponent - 149)`, in the one form each finite number of 32 bits
has: the significand has 24 binary digits, or fewer at the least exponent. -/
structure Weight where
  negative : Bool
  significand : Nat
  exponent : Nat
  significand_lt : significand < 0x1000000 := by decide
  normal : exponent = 0 ∨ 0x800000 ≤ significand := by decide
  exponent_le : exponent ≤ 253 := by decide
  deriving DecidableEq, Repr

structure DecimalFraction where
  negative : Bool
  coefficient : Nat
  places : Nat
  deriving DecidableEq, Repr

namespace Weight

/-- The natural number nearest to a quotient, a tie to the even one. -/
def roundQuotient (num den : Nat) : Nat :=
  let q := num / den
  let twice := 2 * (num % den)
  if twice < den then q
  else if den < twice then q + 1
  else if q % 2 = 0 then q else q + 1

/-- The exponent at which a quotient, counted in units of `2 ^ (-149)`, has at most 24 binary
digits. -/
def exponentOf (num den : Nat) : Nat :=
  Nat.log2 (num / den) - 23

def ofParts? (negative : Bool) (significand exponent : Nat) : Option Weight :=
  if h : significand < 0x1000000 ∧ (exponent = 0 ∨ 0x800000 ≤ significand) ∧ exponent ≤ 253 then
    some ⟨negative, significand, exponent, h.1, h.2.1, h.2.2⟩
  else none

def ofQuotient? (negative : Bool) (num den : Nat) : Option Weight :=
  let scaled := num * Nat.pow 2 149
  let exponent := exponentOf scaled den
  let rounded := roundQuotient scaled (den * Nat.pow 2 exponent)
  if rounded = 0x1000000 then ofParts? negative 0x800000 (exponent + 1)
  else ofParts? negative rounded exponent

def ofDecimal? (fraction : DecimalFraction) : Option Weight :=
  ofQuotient? fraction.negative fraction.coefficient (Nat.pow 10 fraction.places)

def zero : Weight :=
  { negative := false, significand := 0, exponent := 0 }

def ofNat (n : Nat) : Weight :=
  (ofQuotient? false n 1).getD zero

/-- Drops final zeros of a decimal fraction, one place being kept. -/
def stripZeros : Nat → DecimalFraction → DecimalFraction
  | 0, fraction => fraction
  | fuel + 1, fraction =>
    if 1 < fraction.places && fraction.coefficient % 10 == 0 then
      stripZeros fuel ⟨fraction.negative, fraction.coefficient / 10, fraction.places - 1⟩
    else fraction

/-- The decimal fraction equal to a weight, with at least one place and no zero that can be
spared. -/
def toDecimal (weight : Weight) : DecimalFraction :=
  if 149 ≤ weight.exponent then
    ⟨weight.negative, weight.significand * Nat.pow 2 (weight.exponent - 149) * 10, 1⟩
  else
    let places := 149 - weight.exponent
    stripZeros places ⟨weight.negative, weight.significand * Nat.pow 5 places, places⟩

end Weight

end ChangeImpact
