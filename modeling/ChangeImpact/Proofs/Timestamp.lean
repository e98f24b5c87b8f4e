import ChangeImpact.Proofs.Text.Digits
import ChangeImpact.Timestamp
import Mathlib.Tactic.Ring

/-!
# Dates and times that are read again

Every day has a month of its calendar and a day of that month, and the text of an instant before the
year 10000 is read as an instant.
-/

namespace ChangeImpact.Timestamp

/-! ## The calendar -/

/-- The day of an era on which a year of it begins. -/
def yearStart (year : Nat) : Nat :=
  365 * year + year / 4 - year / 100 + year / 400

def yearOfDay (day : Nat) : Nat :=
  (day - day / 1460 + day / 36524 - day / 146096) / 365

theorem yearOfDay_mono {first second : Nat} (le : first ≤ second) :
    yearOfDay first ≤ yearOfDay second := by
  induction le with
  | refl => exact Nat.le_refl _
  | @step second _ ih =>
    refine Nat.le_trans ih (Nat.div_le_div_right ?_)
    omega

theorem exists_yearStart {day years : Nat} (before : day < yearStart years) :
    ∃ year < years, yearStart year ≤ day ∧ day < yearStart (year + 1) := by
  induction years with
  | zero => exact absurd before (Nat.not_lt_zero day)
  | succ years ih =>
    by_cases earlier : day < yearStart years
    · obtain ⟨year, less, bounds⟩ := ih earlier
      exact ⟨year, Nat.lt_succ_of_lt less, bounds⟩
    · exact ⟨years, Nat.lt_succ_self years, Nat.not_lt.mp earlier, before⟩

/-- The years of an era have their lengths, and their first and last days belong to them. -/
theorem year_bounds : ∀ year < 400,
    yearOfDay (yearStart year) = year ∧ yearOfDay (yearStart (year + 1) - 1) = year ∧
      yearStart (year + 1) = yearStart year + if isLeap (year + 1 : Nat) then 366 else 365 := by
  decide +kernel

theorem yearOfDay_spec {day : Nat} (inEra : day < 146097) :
    yearOfDay day < 400 ∧ yearStart (yearOfDay day) ≤ day ∧
      day < yearStart (yearOfDay day) + if isLeap (yearOfDay day + 1 : Nat) then 366 else 365 := by
  obtain ⟨year, less, begins, ends⟩ := exists_yearStart (show day < yearStart 400 from inEra)
  obtain ⟨first, last, length⟩ := year_bounds year less
  -- The year grows with the day, and is right on the first and the last day of the year.
  have same : yearOfDay day = year := by
    refine Nat.le_antisymm ?_ ?_
    · calc yearOfDay day ≤ yearOfDay (yearStart (year + 1) - 1) := yearOfDay_mono (by omega)
        _ = year := last
    · calc year = yearOfDay (yearStart year) := first.symm
        _ ≤ yearOfDay day := yearOfDay_mono begins
  rw [same, ← length]
  exact ⟨less, begins, ends⟩

theorem isLeap_add_era (year era : Int) : isLeap (year + era * 400) = isLeap year := by
  unfold isLeap
  have four : (year + era * 400) % 4 = year % 4 := by omega
  have hundred : (year + era * 400) % 100 = year % 100 := by omega
  have all : (year + era * 400) % 400 = year % 400 := by omega
  rw [four, hundred, all]

/-- The month of a day of a year that begins with March. -/
def monthOfDay (day : Nat) : Nat :=
  if (5 * day + 2) / 153 < 10 then (5 * day + 2) / 153 + 3 else (5 * day + 2) / 153 - 9

def dayOfMonth (day : Nat) : Nat :=
  day - (153 * ((5 * day + 2) / 153) + 2) / 5 + 1

theorem civil_eq (days : Nat) : ∃ year day : Nat,
    civil days = (if monthOfDay day ≤ 2 then (year : Int) + 1 else year, monthOfDay day,
      dayOfMonth day) ∧
    day < (if isLeap (year + 1) then 366 else 365) ∧
    (days < 2932897 → year < 9999 ∨ year = 9999 ∧ day < 306) := by
  obtain ⟨less, begins, ends⟩ := yearOfDay_spec (Nat.mod_lt (days + 719468) (by decide))
  have dayOfEra : (((days : Int) + 719468) % 146097).toNat = (days + 719468) % 146097 := by omega
  have eraOfDay : ((days : Int) + 719468) / 146097 = ((days + 719468) / 146097 : Nat) := by omega
  have limit : days < 2932897 → (days + 719468) / 146097 < 24 ∨
    (days + 719468) / 146097 = 24 ∧ (days + 719468) % 146097 < 146037 := by omega
  have last : yearOfDay ((days + 719468) % 146097) = 399 →
      yearStart (yearOfDay ((days + 719468) % 146097)) = 145731 := by
    intro same
    rw [same]
    rfl
  refine ⟨yearOfDay ((days + 719468) % 146097) + (days + 719468) / 146097 * 400,
    (days + 719468) % 146097 - yearStart (yearOfDay ((days + 719468) % 146097)), ?_, ?_, ?_⟩
  · have start : ∀ year < 400, 365 * year + year / 4 - year / 100 = yearStart year := by
      intro year less
      unfold yearStart
      omega
    unfold civil
    simp only [dayOfEra, eraOfDay]
    rw [← yearOfDay, start _ less]
    push_cast
    rfl
  · push_cast
    rw [add_right_comm, isLeap_add_era]
    push_cast at ends
    omega
  · omega

theorem month_bounds : ∀ day < 366,
    1 ≤ monthOfDay day ∧ monthOfDay day ≤ 12 ∧ 1 ≤ dayOfMonth day ∧
      dayOfMonth day ≤ daysInMonth 2000 (monthOfDay day) ∧
      (day < 365 → dayOfMonth day ≤ daysInMonth 2001 (monthOfDay day)) ∧
      (day < 306 → 2 < monthOfDay day) := by
  decide +kernel

theorem daysInMonth_congr {first second : Int} {month : Nat}
    (same : month = 2 → isLeap first = isLeap second) :
    daysInMonth first month = daysInMonth second month := by
  unfold daysInMonth
  by_cases february : month = 2
  · rw [same february]
  · simp [february]

/-- Every day before the year 10000 has a year of four digits at most, a month, and a day of it. -/
theorem civil_spec {days : Nat} (before : days < 2932897) :
    ∃ year month day : Nat, civil days = ((year : Int), month, day) ∧ year < 10000 ∧
      1 ≤ month ∧ month ≤ 12 ∧ 1 ≤ day ∧ day ≤ daysInMonth year month := by
  obtain ⟨year, day, civil, inYear, limit⟩ := civil_eq days
  have inLongest : day < 366 := by
    split at inYear <;> omega
  obtain ⟨month, months, first, last, lastCommon, early⟩ := month_bounds day inLongest
  by_cases winter : monthOfDay day ≤ 2
  · refine ⟨year + 1, _, _, civil.trans (by rw [if_pos winter]; rfl), ?_, month, months, first, ?_⟩
    · omega
    · by_cases leap : isLeap (year + 1) = true
      · exact Nat.le_trans last (Nat.le_of_eq (daysInMonth_congr fun _ => leap.symm))
      · rw [if_neg leap] at inYear
        have common : isLeap (year + 1) = false := by simpa using leap
        exact Nat.le_trans (lastCommon inYear)
          (Nat.le_of_eq (daysInMonth_congr fun _ => common.symm))
  · refine ⟨year, _, _, civil.trans (by rw [if_neg winter]), ?_, month, months, first, ?_⟩
    · omega
    · exact Nat.le_trans last (Nat.le_of_eq (daysInMonth_congr fun february => by omega))

/-! ## The text of an instant -/

theorem isBlank_of_isDigit {c : Char} (digit : c.isDigit = true) : Text.isBlank c = false := by
  have bounds : 48 ≤ c.val.toNat ∧ c.val.toNat ≤ 57 := by
    simpa [Char.isDigit, UInt32.le_iff_toNat_le] using digit
  simp only [Text.isBlank, Bool.or_eq_false_iff, Bool.and_eq_false_iff, decide_eq_false_iff_not,
    beq_eq_false_iff_ne, ne_eq]
  omega

section

variable {width n : Nat} (pos : 0 < width) (small : n < Nat.pow 10 width)
include pos small

theorem padded_spec : ∃ digits, (padded width n).toList = digits ∧ digits.length = width ∧
    (∀ c ∈ digits, c.isDigit = true) ∧ digitsValue digits = n := by
  refine ⟨_, rfl, ?_, ?_, ?_⟩
  · have length := (Nat.length_toDigits_le_iff (by decide) pos).mpr small
    simp only [padded, String.toList_ofList, List.length_append, List.length_replicate]
    omega
  · simpa [padded] using Text.isDigit_of_mem_padded
  · have value := Text.ofDigitChars_padded (width - (Nat.toDigits 10 n).length) n
    rw [Nat.ofDigitChars] at value
    simpa [padded, digitsValue, Nat.mul_comm] using value

theorem number?_padded (rest : List Char) :
    number? width ((padded width n).toList ++ rest) = some (n, rest) := by
  obtain ⟨digits, text, length, all, value⟩ := padded_spec pos small
  have taken : ((digits ++ rest).takeWhile Char.isDigit).take width = digits := by
    rw [List.takeWhile_append_of_pos all, List.take_append_of_le_length (by omega),
      List.take_of_length_le (by omega)]
  have some : digits.isEmpty = false := by
    rw [List.isEmpty_eq_false_iff_exists_mem]
    exact List.exists_mem_of_length_pos (by omega)
  rw [text, number?, taken, some, value, List.drop_left]
  rfl

theorem trimStartChars_padded (rest : List Char) :
    Text.trimStartChars ((padded width n).toList ++ rest) = (padded width n).toList ++ rest := by
  obtain ⟨digits, text, length, all, -⟩ := padded_spec pos small
  rw [text]
  cases digits with
  | nil => simp at length; omega
  | cons c digits =>
    have first := isBlank_of_isDigit (all c List.mem_cons_self)
    simp [Text.trimStartChars, first]

theorem field?_padded (rest : List Char) :
    field? width ((padded width n).toList ++ rest) = some (n, rest) := by
  rw [field?, trimStartChars_padded pos small, number?_padded pos small]

end

theorem year?_padded {year : Nat} (small : year < 10000) (rest : List Char) :
    year? ((padded 4 year).toList ++ rest) = some ((year : Int), rest) := by
  have number := number?_padded (show 0 < 4 by decide) small rest
  have trimmed := trimStartChars_padded (show 0 < 4 by decide) small rest
  obtain ⟨digits, text, length, all, -⟩ := padded_spec (show 0 < 4 by decide) small
  rw [text] at number trimmed ⊢
  cases digits with
  | nil => exact nomatch length
  | cons c digits =>
    have digit := all c List.mem_cons_self
    unfold year?
    rw [trimmed]
    split
    · next minus => exact absurd ((List.cons.inj minus).1 ▸ digit) (by decide)
    · next plus => exact absurd ((List.cons.inj plus).1 ▸ digit) (by decide)
    · rw [number]
      rfl

theorem separator?_cons {c : Char} (visible : Text.isBlank c = false) (rest : List Char) :
    separator? c (c :: rest) = some rest := by
  simp [separator?, Text.trimStartChars, visible]

theorem fraction?_padded {width n : Nat} (pos : 0 < width) (small : n < Nat.pow 10 width)
    {c : Char} (ends : c.isDigit = false) (rest : List Char) :
    fraction? ('.' :: ((padded width n).toList ++ c :: rest)) = some (c :: rest) := by
  obtain ⟨digits, text, length, all, -⟩ := padded_spec pos small
  have after : (c :: rest).dropWhile Char.isDigit = c :: rest :=
    List.dropWhile_cons_of_neg (by simp [ends])
  have some : (digits ++ (c :: rest).takeWhile Char.isDigit).isEmpty = false := by
    rw [List.isEmpty_eq_false_iff_exists_mem]
    exact List.exists_mem_of_length_pos (by simp; omega)
  rw [text, fraction?, List.takeWhile_append_of_pos all, some, List.dropWhile_append_of_pos all,
    after]
  rfl

theorem fraction?_fractionText {nanoseconds : Nat} (small : nanoseconds < 1000000000)
    {c : Char} (ends : c.isDigit = false) (next : c ≠ '.') (rest : List Char) :
    fraction? ((fractionText nanoseconds).toList ++ c :: rest) = some (c :: rest) := by
  unfold fractionText
  split
  · unfold fraction?
    split
    · next begins => exact absurd (List.cons.inj begins).1 next
    · rfl
  · have point : ∀ {width n}, ("." ++ padded width n).toList ++ c :: rest =
        '.' :: ((padded width n).toList ++ c :: rest) := by simp
    split
    · rw [point, fraction?_padded (by decide) (show _ < 1000 by omega) ends]
    · split
      · rw [point, fraction?_padded (by decide) (show _ < 1000000 by omega) ends]
      · rw [point, fraction?_padded (by decide) small ends]

theorem daysInMonth_le (year : Int) (month : Nat) : daysInMonth year month ≤ 31 := by
  unfold daysInMonth
  split
  · split <;> decide
  · split <;> decide

theorem isSome_bind {α β : Type} {first : Option α} {value : α} {next : α → Option β}
    (found : first = some value) (later : (next value).isSome = true) :
    (first >>= next).isSome = true := by
  rw [found]
  exact later

/-- A date and a time of day with a point and digits or nothing after it, in universal time. -/
theorem isInstant_fields {year month day hour minute second : Nat} (years : year < 10000)
    (months : 1 ≤ month ∧ month ≤ 12) (days : 1 ≤ day ∧ day ≤ daysInMonth year month)
    (hours : hour < 24) (minutes : minute < 60) (seconds : second < 60) {fraction : List Char}
    (point : fraction? (fraction ++ ['Z']) = some ['Z']) :
    isInstant ((padded 4 year).toList ++ '-' :: ((padded 2 month).toList ++ '-' ::
      ((padded 2 day).toList ++ 'T' :: ((padded 2 hour).toList ++ ':' ::
        ((padded 2 minute).toList ++ ':' ::
          ((padded 2 second).toList ++ (fraction ++ ['Z']))))))) = true := by
  have inMonth := daysInMonth_le year month
  have field : ∀ {n}, n < 100 → ∀ rest, field? 2 ((padded 2 n).toList ++ rest) = some (n, rest) :=
    fun small rest => field?_padded (by decide) small rest
  have dash := fun rest => separator?_cons (show Text.isBlank '-' = false by decide) rest
  have colon := fun rest => separator?_cons (show Text.isBlank ':' = false by decide) rest
  have zone : zone? (Text.trimStartChars ['Z']) = some [] := by decide
  have valid : year ≤ 262142 ∧ 1 ≤ month ∧ month ≤ 12 ∧ 1 ≤ day ∧ day ≤ daysInMonth year month ∧
      hour < 24 ∧ minute < 60 ∧ second ≤ 60 := by omega
  refine isSome_bind (year?_padded years _) ?_
  refine isSome_bind (dash _) ?_
  refine isSome_bind (field (show month < 100 by omega) _) ?_
  refine isSome_bind (dash _) ?_
  refine isSome_bind (field (show day < 100 by omega) _) ?_
  refine isSome_bind rfl ?_
  refine isSome_bind (field (show hour < 100 by omega) _) ?_
  refine isSome_bind (colon _) ?_
  refine isSome_bind (field (show minute < 100 by omega) _) ?_
  refine isSome_bind (colon _) ?_
  refine isSome_bind (field (show second < 100 by omega) _) ?_
  refine isSome_bind point ?_
  refine isSome_bind zone ?_
  have accepted : ((Text.trimStartChars []).isEmpty && decide ((year : Int).natAbs ≤ 262142) &&
      decide (1 ≤ month) && decide (month ≤ 12) && decide (1 ≤ day) &&
      decide (day ≤ daysInMonth year month) && decide (hour < 24) && decide (minute < 60) &&
      decide (second ≤ 60)) = true := by
    simp [Text.trimStartChars, valid]
  rw [accepted]
  rfl

/-- The first instant of the year 10000, in nanoseconds since 1970. -/
def horizon : Nat := 253402300800000000000

/-- The text of an instant before the year 10000 is read as an instant. -/
theorem isInstant_render {now : Nat} (before : now < horizon) :
    isInstant (render now).toList = true := by
  have inDays : now / 1000000000 / 86400 < 2932897 := by
    unfold horizon at before
    omega
  obtain ⟨year, month, day, date, years, month_pos, months, day_pos, days⟩ := civil_spec inDays
  have seconds : now / 1000000000 % 86400 < 86400 := Nat.mod_lt _ (by decide)
  have point := fraction?_fractionText (show now % 1000000000 < 1000000000 by omega)
    (show 'Z'.isDigit = false by decide) (by decide) []
  unfold render
  simp only
  rw [date]
  generalize now / 1000000000 % 86400 = clock at seconds
  have fields := isInstant_fields years ⟨month_pos, months⟩ ⟨day_pos, days⟩
    (show clock / 3600 < 24 by omega) (show clock / 60 % 60 < 60 by omega)
    (show clock % 60 < 60 by omega) point
  simpa using fields

end ChangeImpact.Timestamp
