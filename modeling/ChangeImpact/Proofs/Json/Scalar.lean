import ChangeImpact.Json.Parser
import ChangeImpact.Json.Printer
import ChangeImpact.Proofs.Text.Digits

/-!
# Texts and numbers in JSON

A text between quotes is read up to its own closing quote, whatever comes after it. A number is read
to its end if no character comes next that could continue it. What was written is what is read.
-/

namespace ChangeImpact.Json

/-! ## Texts -/

theorem hexValue?_hexDigit : ∀ n < 16, hexValue? (hexDigit n) = some n := by decide

theorem escape?_unit {n : Nat} (small : n < 32) (tail : List Char) :
    escape? ('u' :: '0' :: '0' :: hexDigit (n / 16) :: hexDigit (n % 16) :: tail) =
      some (Char.ofNat n, tail) := by
  have high := hexValue?_hexDigit (n / 16) (by omega)
  have low := hexValue?_hexDigit (n % 16) (by omega)
  have zero : hexValue? '0' = some 0 := by decide
  have unit : hexUnit? ('0' :: '0' :: hexDigit (n / 16) :: hexDigit (n % 16) :: tail) =
      some (n, tail) := by
    simp only [hexUnit?, zero, high, low, Option.bind_eq_bind, Option.bind_some, Option.pure_def,
      Option.some.injEq, Prod.mk.injEq, and_true]
    omega
  have notHigh : (0xD800 ≤ n && n < 0xDC00) = false := by
    simp only [Bool.and_eq_false_iff, decide_eq_false_iff_not]
    omega
  have notLow : (0xDC00 ≤ n && n < 0xE000) = false := by
    simp only [Bool.and_eq_false_iff, decide_eq_false_iff_not]
    omega
  simp only [escape?, unitEscape?, unit, notHigh, notLow, Bool.false_eq_true, if_false]

theorem hexDigit_plain : ∀ n < 16, hexDigit n ≠ '"' ∧ hexDigit n ≠ '\\' := by decide

/-- A character is written as itself, or as an escape that stands for it. -/
theorem escapeChar_cases (c : Char) :
    (escapeChar c = [c] ∧ c ≠ '"' ∧ c ≠ '\\' ∧ 32 ≤ c.toNat) ∨
      ∃ mark inner, escapeChar c = '\\' :: mark :: inner ∧
        (∀ d ∈ inner, d ≠ '"' ∧ d ≠ '\\') ∧
        ∀ rest, escape? (mark :: (inner ++ rest)) = some (c, rest) := by
  have short : ∀ {mark : Char}, escapeChar c = ['\\', mark] →
      (∀ rest, escape? (mark :: rest) = some (c, rest)) → ∃ mark inner,
        escapeChar c = '\\' :: mark :: inner ∧ (∀ d ∈ inner, d ≠ '"' ∧ d ≠ '\\') ∧
          ∀ rest, escape? (mark :: (inner ++ rest)) = some (c, rest) :=
    fun written read => ⟨_, [], written, by simp, read⟩
  have byNumber : ∀ {n : Nat}, c.toNat = n → c = Char.ofNat n :=
    fun same => same ▸ (Char.ofNat_toNat c).symm
  by_cases quote : c = '"'
  · subst quote
    exact .inr (short rfl fun rest => rfl)
  by_cases backslash : c = '\\'
  · subst backslash
    exact .inr (short rfl fun rest => rfl)
  by_cases newline : c = '\n'
  · subst newline
    exact .inr (short rfl fun rest => rfl)
  by_cases carriage : c = '\r'
  · subst carriage
    exact .inr (short rfl fun rest => rfl)
  by_cases tab : c = '\t'
  · subst tab
    exact .inr (short rfl fun rest => rfl)
  by_cases backspace : c.toNat = 8
  · rw [byNumber backspace] at short ⊢
    exact .inr (short rfl fun rest => rfl)
  by_cases formFeed : c.toNat = 12
  · rw [byNumber formFeed] at short ⊢
    exact .inr (short rfl fun rest => rfl)
  by_cases control : c.toNat < 32
  · refine .inr ⟨'u', ['0', '0', hexDigit (c.toNat / 16), hexDigit (c.toNat % 16)], ?_, ?_, ?_⟩
    · simp [escapeChar, quote, backslash, newline, carriage, tab, backspace, formFeed, control]
    · simp only [List.forall_mem_cons]
      exact ⟨by decide, by decide, hexDigit_plain _ (by omega), hexDigit_plain _ (by omega),
        fun _ mem => absurd mem List.not_mem_nil⟩
    · intro rest
      have read := escape?_unit control rest
      rwa [Char.ofNat_toNat] at read
  · refine .inl ⟨?_, quote, backslash, by omega⟩
    simp [escapeChar, quote, backslash, newline, carriage, tab, backspace, formFeed, control]

theorem quotedAux_plain {plain : List Char} (all : ∀ c ∈ plain, c ≠ '"' ∧ c ≠ '\\')
    (front tail : List Char) :
    quotedAux front (plain ++ tail) = quotedAux (plain.reverse ++ front) tail := by
  induction plain generalizing front with
  | nil => rfl
  | cons c plain ih =>
    obtain ⟨quote, backslash⟩ := all c List.mem_cons_self
    have step : quotedAux front (c :: (plain ++ tail)) =
        quotedAux (c :: front) (plain ++ tail) := by
      rw [quotedAux.eq_def]
      split <;> simp_all
    rw [List.cons_append, step, ih fun d mem => all d (List.mem_cons_of_mem _ mem)]
    simp

theorem quotedAux_escaped (front : List Char) (text rest : List Char) :
    quotedAux front (text.flatMap escapeChar ++ '"' :: rest) =
      some (front.reverse ++ text.flatMap escapeChar, rest) := by
  induction text generalizing front with
  | nil => simp [quotedAux]
  | cons c text ih =>
    rw [List.flatMap_cons, List.append_assoc]
    rcases escapeChar_cases c with ⟨written, quote, backslash, -⟩ | ⟨mark, inner, written, plain, -⟩
    · have single : ∀ d ∈ [c], d ≠ '"' ∧ d ≠ '\\' := by simp [quote, backslash]
      rw [written, quotedAux_plain single, ih]
      simp
    · rw [written, List.cons_append, List.cons_append, quotedAux, quotedAux_plain plain, ih]
      simp

theorem unescape?_escaped {fuel : Nat} {text : List Char} (enough : text.length ≤ fuel) :
    unescape? fuel (text.flatMap escapeChar) = some text := by
  induction text generalizing fuel with
  | nil => cases fuel <;> rfl
  | cons c text ih =>
    obtain ⟨fuel, rfl⟩ : ∃ n, fuel = n + 1 := ⟨fuel - 1, by simp at enough; omega⟩
    have later : unescape? fuel (text.flatMap escapeChar) = some text :=
      ih (by simpa using enough)
    rw [List.flatMap_cons]
    rcases escapeChar_cases c with ⟨written, -, backslash, high⟩ | ⟨mark, inner, written, -, read⟩
    · simp [written, unescape?, backslash, Nat.not_lt.mpr high, later]
    · simp [written, unescape?, read, later]

theorem length_le_escaped (text : List Char) : text.length ≤ (text.flatMap escapeChar).length := by
  induction text with
  | nil => exact Nat.le_refl 0
  | cons c text ih =>
    have some : 1 ≤ (escapeChar c).length := by
      rcases escapeChar_cases c with ⟨written, -⟩ | ⟨mark, inner, written, -⟩ <;> simp [written]
    rw [List.flatMap_cons, List.length_cons, List.length_append]
    omega

theorem toList_quote (text : String) :
    (quote text).toList = '"' :: (text.toList.flatMap escapeChar ++ ['"']) := by
  simp [quote]

/-- A text that was written is read up to its closing quote. -/
theorem string?_quote (text : String) (rest : List Char) :
    string? (text.toList.flatMap escapeChar ++ '"' :: rest) = some (text, rest) := by
  rw [string?, quotedAux_escaped, List.reverse_nil, List.nil_append]
  simp only [unescape?_escaped (length_le_escaped text.toList), Option.map_some,
    String.ofList_toList]

/-! ## Digits -/

def EndsNumber (rest : List Char) : Prop :=
  ∀ c ∈ rest.head?, c.isDigit = false ∧ c ≠ '.' ∧ c ≠ 'e' ∧ c ≠ 'E'

theorem digits_append {front rest : List Char} (all : ∀ c ∈ front, c.isDigit = true)
    (ends : ∀ c ∈ rest.head?, c.isDigit = false) : digits (front ++ rest) = (front, rest) := by
  rw [digits, List.takeWhile_append_of_pos all, List.dropWhile_append_of_pos all]
  cases rest with
  | nil => simp
  | cons c rest =>
    have stop : c.isDigit = false := ends c (by simp)
    simp [stop]

theorem digitValue?_of_isDigit {c : Char} (digit : c.isDigit = true) :
    digitValue? c = some (c.toNat - '0'.toNat) := by
  have bounds : ('0' ≤ c && c ≤ '9') = true := digit
  rw [digitValue?, if_pos bounds]

theorem decimalValue_eq {text : List Char} (all : ∀ c ∈ text, c.isDigit = true) :
    decimalValue text = Nat.ofDigitChars 10 text 0 := by
  have values : text.filterMap digitValue? = text.map fun c => c.toNat - '0'.toNat := by
    induction text with
    | nil => rfl
    | cons c text ih =>
      rw [List.filterMap_cons_some (digitValue?_of_isDigit (all c List.mem_cons_self)),
        ih fun d mem => all d (List.mem_cons_of_mem _ mem), List.map_cons]
  rw [decimalValue, values, List.foldl_map, Nat.ofDigitChars]
  simp only [Nat.mul_comm]

theorem decimalValue_toDigits (n : Nat) : decimalValue (Nat.toDigits 10 n) = n := by
  rw [decimalValue_eq Text.isDigit_of_mem_toDigits]
  exact Nat.ofDigitChars_toDigits (by decide) (by decide)

theorem head_toDigits_ne {n : Nat} (pos : 0 < n) : (Nat.toDigits 10 n).head? ≠ some '0' := by
  induction n using Nat.strongRecOn with
  | _ n ih =>
    by_cases small : n < 10
    · rw [Nat.toDigits_of_lt_base small]
      have each : ∀ m < 10, 0 < m → ([m.digitChar].head? ≠ some '0') := by decide
      exact each n small pos
    · have front := ih (n / 10) (by omega) (by omega)
      obtain ⟨c, rest, shape⟩ : ∃ c rest, Nat.toDigits 10 (n / 10) = c :: rest :=
        List.exists_cons_of_ne_nil Nat.toDigits_ne_nil
      rw [shape] at front
      rw [Nat.toDigits_of_base_le (by decide) (by omega), shape, List.cons_append]
      exact front

/-- Digits that may stand before a point: a zero alone, or digits that begin with another one. -/
def IsWhole (text : List Char) : Prop :=
  text = ['0'] ∨ text ≠ [] ∧ (∀ c ∈ text, c.isDigit = true) ∧ text.head? ≠ some '0'

theorem isWhole_toDigits (n : Nat) : IsWhole (Nat.toDigits 10 n) := by
  rcases Nat.eq_zero_or_pos n with rfl | pos
  · exact .inl rfl
  · exact .inr ⟨Nat.toDigits_ne_nil, Text.isDigit_of_mem_toDigits, head_toDigits_ne pos⟩

theorem IsWhole.isDigit {text : List Char} (whole : IsWhole text) :
    ∀ c ∈ text, c.isDigit = true := by
  rcases whole with rfl | ⟨-, all, -⟩
  · simp
  · exact all

theorem IsWhole.ne_nil {text : List Char} (whole : IsWhole text) : text ≠ [] := by
  rcases whole with rfl | ⟨some, -, -⟩
  · exact List.cons_ne_nil _ _
  · exact some

theorem wholePart?_append {text rest : List Char} (whole : IsWhole text)
    (ends : ∀ c ∈ rest.head?, c.isDigit = false) :
    wholePart? (text ++ rest) = some (text, rest) := by
  rw [wholePart?, digits_append whole.isDigit ends]
  rcases whole with rfl | ⟨some, -, first⟩
  · rfl
  · cases text with
    | nil => exact absurd rfl some
    | cons c text =>
      have differ : c ≠ '0' := by simpa using first
      split <;> simp_all

/-! ## Numbers -/

theorem fractionPart?_of_endsNumber {rest : List Char} (ends : EndsNumber rest) :
    fractionPart? rest = some (none, rest) := by
  unfold fractionPart?
  split
  · next rest' => exact absurd rfl (ends '.' (by simp)).2.1
  · rfl

theorem exponentPart?_of_endsNumber {rest : List Char} (ends : EndsNumber rest) :
    exponentPart? rest = some (none, rest) := by
  cases rest with
  | nil => rfl
  | cons c rest =>
    obtain ⟨-, -, lower, upper⟩ := ends c (by simp)
    simp [exponentPart?, lower, upper]

theorem EndsNumber.isDigit {rest : List Char} (ends : EndsNumber rest) :
    ∀ c ∈ rest.head?, c.isDigit = false :=
  fun c mem => (ends c mem).1

theorem number?_of_isWhole {whole : List Char} (isWhole : IsWhole whole) (rest : List Char) :
    number? (whole ++ rest) = unsigned? false (whole ++ rest) := by
  unfold number?
  split
  · next minus begins =>
    have digit : ('-' : Char).isDigit = true := by
      cases whole with
      | nil => exact absurd rfl isWhole.ne_nil
      | cons c whole =>
        rw [← (List.cons.inj begins).1]
        exact isWhole.isDigit c List.mem_cons_self
    exact absurd digit (by decide)
  · rfl

/-- A whole number of 64 bits is read as it was written. -/
theorem number?_intText {value : Int} (low : -0x8000000000000000 ≤ value)
    (high : value < 0x10000000000000000) {rest : List Char} (ends : EndsNumber rest) :
    number? ((intText value).toList ++ rest) = some (int value, rest) := by
  have parts : ∀ negative, unsigned? negative (Nat.toDigits 10 value.natAbs ++ rest) =
      (numberValue? negative (Nat.toDigits 10 value.natAbs) none none).map (·, rest) := by
    intro negative
    simp only [unsigned?, wholePart?_append (isWhole_toDigits _) ends.isDigit,
      fractionPart?_of_endsNumber ends, exponentPart?_of_endsNumber ends, Option.bind_eq_bind,
      Option.bind_some, Option.pure_def]
    cases numberValue? negative (Nat.toDigits 10 value.natAbs) none none <;> rfl
  by_cases negative : value < 0
  · have text : (intText value).toList = '-' :: Nat.toDigits 10 value.natAbs := by
      simp [intText, negative]
    have nonzero : value.natAbs ≠ 0 := by omega
    have small : value.natAbs ≤ 0x8000000000000000 := by omega
    have same : -(value.natAbs : Int) = value := by omega
    rw [text, List.cons_append, number?, parts]
    simp only [numberValue?, decimalValue_toDigits, nonzero, small, same, if_true, if_false,
      Option.map_some]
  · have text : (intText value).toList = Nat.toDigits 10 value.natAbs := by
      simp [intText, negative]
    have small : value.natAbs < 0x10000000000000000 := by omega
    have same : (value.natAbs : Int) = value := by omega
    rw [text, number?_of_isWhole (isWhole_toDigits _), parts]
    simp only [numberValue?, decimalValue_toDigits, small, same, if_true, Bool.false_eq_true,
      if_false, Option.map_some]

/-! ## Decimal fractions -/

/-- A fraction that is read as it is written: with digits after its point, not so small that it is
taken for zero, and not too large for a double. -/
structure IsPlain (fraction : DecimalFraction) : Prop where
  pos : 1 ≤ fraction.places
  le : fraction.places ≤ 400
  zero : fraction.coefficient = 0 → fraction.places = 1
  small : fraction.coefficient < Nat.pow 10 (fraction.places + 200)

theorem decimalValue_padded (count n : Nat) :
    decimalValue (List.replicate count '0' ++ Nat.toDigits 10 n) = n := by
  rw [decimalValue_eq Text.isDigit_of_mem_padded, Text.ofDigitChars_padded]

theorem decimalDigits_eq {n places : Nat} (pos : 1 ≤ places) (zero : n = 0 → places = 1) :
    ∃ whole fraction, decimalDigits (Nat.toDigits 10 n) places = whole ++ '.' :: fraction ∧
      IsWhole whole ∧ (∀ c ∈ fraction, c.isDigit = true) ∧ fraction.length = places ∧
      decimalValue (whole ++ fraction) = n := by
  have digits : ∀ c ∈ Nat.toDigits 10 n, c.isDigit = true := Text.isDigit_of_mem_toDigits
  have value := decimalValue_padded (places + 1 - (Nat.toDigits 10 n).length) n
  by_cases long : places < (Nat.toDigits 10 n).length
  · have none : places + 1 - (Nat.toDigits 10 n).length = 0 := by omega
    have positive : 0 < n := by
      rcases Nat.eq_zero_or_pos n with rfl | positive
      · have single : (Nat.toDigits 10 0).length = 1 := rfl
        omega
      · exact positive
    refine ⟨(Nat.toDigits 10 n).take ((Nat.toDigits 10 n).length - places),
      (Nat.toDigits 10 n).drop ((Nat.toDigits 10 n).length - places), ?_, .inr ⟨?_, ?_, ?_⟩, ?_, ?_,
      ?_⟩
    · simp [decimalDigits, none]
    · intro empty
      have length := congrArg List.length empty
      simp only [List.length_take, List.length_nil] at length
      omega
    · exact fun c mem => digits c (List.mem_of_mem_take mem)
    · rw [List.head?_take, if_neg (by omega)]
      exact head_toDigits_ne positive
    · exact fun c mem => digits c (List.mem_of_mem_drop mem)
    · rw [List.length_drop]
      omega
    · rw [none, List.replicate_zero, List.nil_append] at value
      rw [List.take_append_drop, value]
  · generalize pad_eq : places - (Nat.toDigits 10 n).length = pad
    have padding : places + 1 - (Nat.toDigits 10 n).length = pad + 1 := by omega
    have width : pad + (Nat.toDigits 10 n).length = places := by omega
    rw [padding, List.replicate_succ, List.cons_append] at value
    refine ⟨['0'], List.replicate pad '0' ++ Nat.toDigits 10 n, ?_, .inl rfl, ?_, ?_, value⟩
    · have one : pad + (Nat.toDigits 10 n).length + 1 - places = 1 := by omega
      simp [decimalDigits, padding, one, List.replicate_succ]
    · intro c mem
      rcases List.mem_append.mp mem with zeros | digit
      · rw [List.eq_of_mem_replicate zeros]
        rfl
      · exact digits c digit
    · rw [List.length_append, List.length_replicate, width]

theorem scaled?_of_isPlain {fraction : DecimalFraction} (plain : IsPlain fraction) :
    scaled? fraction.negative fraction.coefficient (0 - (fraction.places : Int)) =
      some (decimal fraction) := by
  obtain ⟨negative, coefficient, places⟩ := fraction
  obtain ⟨pos, le, zero, small⟩ := plain
  simp only at pos le zero small ⊢
  have width : (Nat.toDigits 10 coefficient).length ≤ places + 200 :=
    (Nat.length_toDigits_le_iff (by decide) (by omega)).mpr small
  have some : 1 ≤ (Nat.toDigits 10 coefficient).length :=
    List.length_pos_iff.mpr Nat.toDigits_ne_nil
  by_cases empty : coefficient = 0
  · simp [scaled?, empty, zero empty]
  · have notSmall : ¬ ((Nat.toDigits 10 coefficient).length + (0 - (places : Int)) < -400) := by
      omega
    have notLarge : ¬ (309 < (Nat.toDigits 10 coefficient).length + (0 - (places : Int))) := by
      omega
    have negativeExponent : 0 - (places : Int) < 0 := by omega
    have abs : (0 - (places : Int)).natAbs = places := by omega
    have bounded : ¬ doubleLimit * Nat.pow 10 places ≤ coefficient := by
      have limit : Nat.pow 10 200 ≤ doubleLimit := by decide +kernel
      have split : Nat.pow 10 (places + 200) = Nat.pow 10 200 * Nat.pow 10 places := by
        rw [Nat.pow_eq, Nat.pow_eq, Nat.pow_eq, Nat.add_comm, Nat.pow_add]
      have scaled := Nat.mul_le_mul_right (Nat.pow 10 places) limit
      omega
    simp only [scaled?, empty, decide_false, Bool.false_or, Bool.false_eq_true, notSmall, notLarge,
      negativeExponent, abs, bounded, if_false, if_true]

/-- A plain fraction is read as it was written. -/
theorem number?_decimalText {fraction : DecimalFraction} (plain : IsPlain fraction)
    {rest : List Char} (ends : EndsNumber rest) :
    number? ((decimalText fraction).toList ++ rest) = some (decimal fraction, rest) := by
  obtain ⟨whole, places, text, isWhole, all, width, value⟩ :=
    decimalDigits_eq plain.pos plain.zero
  have point : ∀ c ∈ ('.' :: (places ++ rest)).head?, c.isDigit = false := by simp
  have afterPoint : fractionPart? ('.' :: (places ++ rest)) = some (some places, rest) := by
    have nonempty : places ≠ [] := by
      have pos := plain.pos
      rintro rfl
      simp only [List.length_nil] at width
      omega
    rw [fractionPart?, digits_append all ends.isDigit]
    split
    · next none => exact absurd (Prod.mk.inj none).1 nonempty
    · next front rest' parts =>
      rw [← (Prod.mk.inj parts).1, ← (Prod.mk.inj parts).2]
  have parts : unsigned? fraction.negative (whole ++ '.' :: (places ++ rest)) =
      some (decimal fraction, rest) := by
    simp only [unsigned?, wholePart?_append isWhole point, afterPoint,
      exponentPart?_of_endsNumber ends, Option.bind_eq_bind, Option.bind_some, Option.pure_def,
      numberValue?, Option.getD_some, Option.getD_none, value, width, scaled?_of_isPlain plain]
  have nonzero : fraction.places ≠ 0 := by
    have pos := plain.pos
    omega
  cases negative : fraction.negative with
  | true =>
    have written : (decimalText fraction).toList ++ rest =
        '-' :: (whole ++ '.' :: (places ++ rest)) := by
      simp [decimalText, nonzero, negative, text]
    rw [written, number?, ← negative, parts]
  | false =>
    have written : (decimalText fraction).toList ++ rest = whole ++ '.' :: (places ++ rest) := by
      simp [decimalText, nonzero, negative, text]
    rw [written, number?_of_isWhole isWhole, ← negative, parts]

theorem decimalText_begins {fraction : DecimalFraction} (plain : IsPlain fraction) :
    ∃ c text, (decimalText fraction).toList = c :: text ∧ (c = '-' ∨ c.isDigit = true) := by
  obtain ⟨whole, places, text, isWhole, -⟩ := decimalDigits_eq plain.pos plain.zero
  have nonzero : fraction.places ≠ 0 := Nat.ne_of_gt plain.pos
  cases negative : fraction.negative with
  | true => exact ⟨'-', whole ++ '.' :: places, by simp [decimalText, nonzero, negative, text],
      .inl rfl⟩
  | false =>
    cases whole with
    | nil => exact absurd rfl isWhole.ne_nil
    | cons c whole =>
      exact ⟨c, whole ++ '.' :: places, by simp [decimalText, nonzero, negative, text],
        .inr (isWhole.isDigit c List.mem_cons_self)⟩

end ChangeImpact.Json
