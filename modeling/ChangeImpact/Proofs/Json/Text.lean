import ChangeImpact.Proofs.Json.Scalar

/-!
# Values in JSON texts

A text spells a value if the reader takes all of it and nothing that follows, however much fuel is
left. Blanks may stand before a value, and around the marks between values. Both printed forms of a
value spell it, as long as its numbers fit and it is not nested too deeply.
-/

namespace ChangeImpact.Json

/-! ## Blanks -/

def IsBlank (text : List Char) : Prop :=
  ∀ c ∈ text, isSpace c = true

theorem IsBlank.nil : IsBlank [] :=
  fun _ mem => absurd mem List.not_mem_nil

theorem IsBlank.cons {c : Char} {text : List Char} (first : isSpace c = true)
    (later : IsBlank text) : IsBlank (c :: text) :=
  List.forall_mem_cons.mpr ⟨first, later⟩

theorem IsBlank.append {front back : List Char} (first : IsBlank front) (second : IsBlank back) :
    IsBlank (front ++ back) :=
  List.forall_mem_append.mpr ⟨first, second⟩

theorem skipSpace_append {blanks : List Char} (blank : IsBlank blanks) (text : List Char) :
    skipSpace (blanks ++ text) = skipSpace text :=
  List.dropWhile_append_of_pos blank

theorem skipSpace_cons {c : Char} (mark : isSpace c = false) (text : List Char) :
    skipSpace (c :: text) = c :: text := by
  simp [skipSpace, mark]

theorem skipSpace_skipSpace (text : List Char) : skipSpace (skipSpace text) = skipSpace text := by
  induction text with
  | nil => rfl
  | cons c text ih =>
    cases blank : isSpace c with
    | true => simpa [skipSpace, blank] using ih
    | false => rw [skipSpace_cons blank, skipSpace_cons blank]

theorem valueAux_skipSpace (fuel depth : Nat) (text : List Char) :
    valueAux fuel depth (skipSpace text) = valueAux fuel depth text := by
  cases fuel with
  | zero => rfl
  | succ fuel => simp only [valueAux, skipSpace_skipSpace]

theorem itemsAux_skipSpace (fuel depth : Nat) (text : List Char) :
    itemsAux fuel depth (skipSpace text) = itemsAux fuel depth text := by
  cases fuel with
  | zero => rfl
  | succ fuel => simp only [itemsAux, valueAux_skipSpace]

theorem membersAux_skipSpace (fuel depth : Nat) (text : List Char) :
    membersAux fuel depth (skipSpace text) = membersAux fuel depth text := by
  cases fuel with
  | zero => rfl
  | succ fuel => simp only [membersAux, skipSpace_skipSpace]

theorem endsNumber_cons {c : Char} (mark : isSpace c = true ∨ c = ',' ∨ c = ']' ∨ c = '}')
    (rest : List Char) : EndsNumber (c :: rest) := by
  have plain : c.isDigit = false ∧ c ≠ '.' ∧ c ≠ 'e' ∧ c ≠ 'E' := by
    simp only [isSpace, Bool.or_eq_true, beq_iff_eq] at mark
    rcases mark with (((rfl | rfl) | rfl) | rfl) | rfl | rfl | rfl <;> decide
  intro d mem
  rw [List.head?_cons, Option.mem_some_iff] at mem
  exact mem ▸ plain

theorem endsNumber_blanks {blanks : List Char} (blank : IsBlank blanks) {c : Char}
    (mark : c = ',' ∨ c = ']' ∨ c = '}') (rest : List Char) : EndsNumber (blanks ++ c :: rest) := by
  cases blanks with
  | nil => exact endsNumber_cons (.inr mark) rest
  | cons first blanks => exact endsNumber_cons (.inl (blank first List.mem_cons_self)) _

/-! ## Spelled values -/

/-- The text, with what blanks it begins with, is read as the value by every reader that may still
go `depth` deeper. It does not close a list. -/
structure Spells (depth : Nat) (text : List Char) (value : Json) : Prop where
  begins : ∃ c tail, skipSpace text = c :: tail ∧ c ≠ ']'
  reads : ∀ {fuel : Nat} {rest : List Char}, 2 * text.length < fuel → EndsNumber rest →
    valueAux fuel depth (text ++ rest) = some (value, rest)

theorem Spells.blanks {depth : Nat} {text : List Char} {value : Json}
    (spells : Spells depth text value) {blanks : List Char} (blank : IsBlank blanks) :
    Spells depth (blanks ++ text) value := by
  refine ⟨?_, fun {fuel rest} enough ends => ?_⟩
  · rw [skipSpace_append blank]
    exact spells.begins
  · have less : 2 * text.length < fuel := by
      rw [List.length_append] at enough
      omega
    rw [List.append_assoc, ← valueAux_skipSpace, skipSpace_append blank, valueAux_skipSpace]
    exact spells.reads less ends

/-- A text whose first character is no blank spells a value if it is read with one unit of fuel. -/
theorem Spells.of_cons {depth : Nat} {c : Char} {text : List Char} {value : Json}
    (mark : isSpace c = false) (notClosing : c ≠ ']')
    (reads : ∀ {fuel : Nat} {rest : List Char}, 2 * text.length < fuel → EndsNumber rest →
      valueAux (fuel + 1) depth (c :: (text ++ rest)) = some (value, rest)) :
    Spells depth (c :: text) value := by
  refine ⟨⟨c, text, skipSpace_cons mark text, notClosing⟩, fun {fuel rest} enough ends => ?_⟩
  obtain ⟨fuel, rfl⟩ : ∃ n, fuel = n + 1 := ⟨fuel - 1, by omega⟩
  refine reads ?_ ends
  rw [List.length_cons] at enough
  omega

theorem spells_null (depth : Nat) : Spells depth "null".toList null :=
  .of_cons (by decide) (by decide) fun _ _ => rfl

theorem spells_true (depth : Nat) : Spells depth "true".toList (bool true) :=
  .of_cons (by decide) (by decide) fun _ _ => rfl

theorem spells_false (depth : Nat) : Spells depth "false".toList (bool false) :=
  .of_cons (by decide) (by decide) fun _ _ => rfl

theorem spells_quote (depth : Nat) (text : String) :
    Spells depth (quote text).toList (str text) := by
  rw [toList_quote]
  refine .of_cons (by decide) (by decide) fun _ _ => ?_
  simp [valueAux, skipSpace_cons (show isSpace '"' = false by decide), string?_quote]

theorem valueAux_number {c : Char} (begins : c = '-' ∨ c.isDigit = true) (fuel depth : Nat)
    (text : List Char) : valueAux (fuel + 1) depth (c :: text) = number? (c :: text) := by
  have other : isSpace c = false ∧ c ≠ 'n' ∧ c ≠ 't' ∧ c ≠ 'f' ∧ c ≠ '"' ∧ c ≠ '[' ∧ c ≠ '{' := by
    rcases begins with rfl | digit
    · decide
    · simp only [isSpace, Bool.or_eq_false_iff, beq_eq_false_iff_ne]
      refine ⟨⟨⟨⟨?_, ?_⟩, ?_⟩, ?_⟩, ?_, ?_, ?_, ?_, ?_, ?_⟩ <;>
        exact fun same => absurd (same ▸ digit) (by decide)
  obtain ⟨space, n, t, f, quote, bracket, brace⟩ := other
  rw [valueAux, skipSpace_cons space]
  split <;> simp_all

theorem spells_number {depth : Nat} {c : Char} {text : List Char} {value : Json}
    (begins : c = '-' ∨ c.isDigit = true)
    (reads : ∀ {rest : List Char}, EndsNumber rest →
      number? (c :: (text ++ rest)) = some (value, rest)) : Spells depth (c :: text) value := by
  have plain : isSpace c = false ∧ c ≠ ']' := by
    rcases begins with rfl | digit
    · decide
    · simp only [isSpace, Bool.or_eq_false_iff, beq_eq_false_iff_ne]
      refine ⟨⟨⟨⟨?_, ?_⟩, ?_⟩, ?_⟩, ?_⟩ <;>
        exact fun same => absurd (same ▸ digit) (by decide)
  refine .of_cons plain.1 plain.2 fun {fuel rest} _ ends => ?_
  rw [valueAux_number begins]
  exact reads ends

theorem spells_intText (depth : Nat) {value : Int} (low : -0x8000000000000000 ≤ value)
    (high : value < 0x10000000000000000) : Spells depth (intText value).toList (int value) := by
  obtain ⟨c, text, shape, begins⟩ :
      ∃ c text, (intText value).toList = c :: text ∧ (c = '-' ∨ c.isDigit = true) := by
    by_cases negative : value < 0
    · exact ⟨'-', Nat.toDigits 10 value.natAbs, by simp [intText, negative], .inl rfl⟩
    · obtain ⟨c, text, shape⟩ :=
        List.exists_cons_of_ne_nil (isWhole_toDigits value.natAbs).ne_nil
      refine ⟨c, text, by simp [intText, negative, shape], .inr ?_⟩
      exact Text.isDigit_of_mem_toDigits c (shape ▸ List.mem_cons_self)
  rw [shape]
  refine spells_number begins fun {rest} ends => ?_
  rw [← List.cons_append, ← shape]
  exact number?_intText low high ends

theorem spells_decimalText (depth : Nat) {fraction : DecimalFraction} (plain : IsPlain fraction) :
    Spells depth (decimalText fraction).toList (decimal fraction) := by
  obtain ⟨c, text, shape, begins⟩ :
      ∃ c text, (decimalText fraction).toList = c :: text ∧ (c = '-' ∨ c.isDigit = true) :=
    decimalText_begins plain
  rw [shape]
  refine spells_number begins fun {rest} ends => ?_
  rw [← List.cons_append, ← shape]
  exact number?_decimalText plain ends

/-! ## Lists and objects -/

theorem skipSpace_append_of_eq {text tail : List Char} {c : Char}
    (skipped : skipSpace text = c :: tail) (more : List Char) :
    skipSpace (text ++ more) = c :: (tail ++ more) := by
  rw [skipSpace] at skipped ⊢
  rw [List.dropWhile_append, skipped]
  rfl

theorem itemsAux_intercalate {depth : Nat} {write : Json → List Char} {gap closing : List Char}
    (gapBlank : IsBlank gap) (closingBlank : IsBlank closing) {items : List Json}
    (nonempty : items ≠ []) (spells : ∀ item ∈ items, Spells depth (write item) item)
    {fuel : Nat} {rest : List Char}
    (enough : 2 * ((',' :: gap).intercalate (items.map write)).length + 1 < fuel) :
    itemsAux fuel depth ((',' :: gap).intercalate (items.map write) ++ (closing ++ ']' :: rest)) =
      some (items, rest) := by
  obtain ⟨fuel, rfl⟩ : ∃ n, fuel = n + 1 := ⟨fuel - 1, by omega⟩
  induction items generalizing fuel with
  | nil => exact absurd rfl nonempty
  | cons item items ih =>
    have first : ∀ {after}, 2 * (write item).length < fuel → EndsNumber after →
        valueAux fuel depth (write item ++ after) = some (item, after) :=
      (spells item List.mem_cons_self).reads
    cases items with
    | nil =>
      simp only [List.map_cons, List.map_nil, List.intercalate_singleton] at enough ⊢
      have here := first (by omega) (endsNumber_blanks closingBlank (.inr (.inl rfl)) rest)
      simp only [itemsAux, here, skipSpace_append closingBlank,
        skipSpace_cons (show isSpace ']' = false by decide)]
    | cons next items =>
      simp only [List.map_cons, List.intercalate_cons_cons, List.append_assoc,
        List.cons_append] at enough ⊢
      simp only [List.length_append, List.length_cons] at enough
      obtain ⟨fuel, rfl⟩ : ∃ n, fuel = n + 1 := ⟨fuel - 1, by omega⟩
      have comma : EndsNumber (',' :: (gap ++
          ((',' :: gap).intercalate (write next :: items.map write) ++
            (closing ++ ']' :: rest)))) := endsNumber_cons (by simp) _
      have afterGap : itemsAux (fuel + 1) depth (gap ++
          ((',' :: gap).intercalate (write next :: items.map write) ++ (closing ++ ']' :: rest))) =
            some (next :: items, rest) := by
        rw [← itemsAux_skipSpace, skipSpace_append gapBlank, itemsAux_skipSpace]
        refine ih (List.cons_ne_nil next items)
          (fun item mem => spells item (List.mem_cons_of_mem _ mem)) _ ?_
        rw [List.map_cons]
        omega
      rw [itemsAux]
      simp only [first (by omega) comma, skipSpace_cons (show isSpace ',' = false by decide),
        afterGap, Option.map_some]

theorem spells_nil (depth : Nat) : Spells (depth + 1) ['[', ']'] (arr []) :=
  .of_cons (by decide) (by decide) fun _ _ => rfl

theorem spells_arr {depth : Nat} {write : Json → List Char} {opening gap closing : List Char}
    (openingBlank : IsBlank opening) (gapBlank : IsBlank gap) (closingBlank : IsBlank closing)
    {items : List Json} (nonempty : items ≠ [])
    (spells : ∀ item ∈ items, Spells depth (write item) item) :
    Spells (depth + 1)
      ('[' :: (opening ++ ((',' :: gap).intercalate (items.map write) ++ (closing ++ [']']))))
      (arr items) := by
  refine .of_cons (by decide) (by decide) fun {fuel rest} enough ends => ?_
  simp only [List.length_append, List.length_cons, List.length_nil] at enough
  simp only [List.append_assoc, List.cons_append, List.nil_append]
  have inner : itemsAux fuel depth
      ((',' :: gap).intercalate (items.map write) ++ (closing ++ ']' :: rest)) =
        some (items, rest) :=
    itemsAux_intercalate gapBlank closingBlank nonempty spells (by omega)
  obtain ⟨c, tail, skipped, notClosing⟩ : ∃ c tail,
      skipSpace (opening ++ ((',' :: gap).intercalate (items.map write) ++
        (closing ++ ']' :: rest))) = c :: tail ∧ c ≠ ']' := by
    rw [skipSpace_append openingBlank]
    cases items with
    | nil => exact absurd rfl nonempty
    | cons item items =>
      obtain ⟨c, tail, skipped, notClosing⟩ := (spells item List.mem_cons_self).begins
      obtain ⟨more, shape⟩ : ∃ more,
          (',' :: gap).intercalate ((item :: items).map write) = write item ++ more := by
        cases items with
        | nil => exact ⟨[], by simp⟩
        | cons next items => exact ⟨_, by rw [List.map_cons, List.map_cons,
            List.intercalate_cons_cons, List.append_assoc]⟩
      rw [shape, List.append_assoc]
      exact ⟨c, _, skipSpace_append_of_eq skipped _, notClosing⟩
  rw [← itemsAux_skipSpace, ← skipSpace_append openingBlank, skipped] at inner
  rw [valueAux, skipSpace_cons (show isSpace '[' = false by decide)]
  simp only [skipped]
  split
  · next rest' same => exact absurd (List.cons.inj same).1 notClosing
  · rw [inner]
    rfl

def SpellsMember (depth : Nat) (text : List Char) (member : String × Json) : Prop :=
  ∃ blanks body, IsBlank blanks ∧ text = blanks ++ ((quote member.1).toList ++ ':' :: body) ∧
    Spells depth body member.2

theorem SpellsMember.blanks {depth : Nat} {text : List Char} {member : String × Json}
    (spells : SpellsMember depth text member) {blanks : List Char} (blank : IsBlank blanks) :
    SpellsMember depth (blanks ++ text) member := by
  obtain ⟨front, body, frontBlank, rfl, value⟩ := spells
  exact ⟨blanks ++ front, body, blank.append frontBlank, (List.append_assoc ..).symm, value⟩

theorem SpellsMember.skipSpace_eq {depth : Nat} {text : List Char} {member : String × Json}
    (spells : SpellsMember depth text member) (more : List Char) :
    ∃ tail, skipSpace (text ++ more) = '"' :: tail := by
  obtain ⟨blanks, body, blank, rfl, -⟩ := spells
  rw [List.append_assoc, skipSpace_append blank, toList_quote]
  exact ⟨_, skipSpace_cons (by decide) _⟩

def afterMember (fuel depth : Nat) (member : String × Json) :
    List Char → Option (List (String × Json) × List Char)
  | ',' :: rest => (membersAux fuel depth rest).map fun (members, rest) => (member :: members, rest)
  | '}' :: rest => some ([member], rest)
  | _ => none

/-- The first member of an object is read up to what comes after its value. -/
theorem SpellsMember.reads {depth : Nat} {text : List Char} {name : String} {value : Json}
    (spells : SpellsMember depth text (name, value)) {fuel : Nat} (enough : 2 * text.length < fuel)
    {rest : List Char} (ends : EndsNumber rest) :
    membersAux (fuel + 1) depth (text ++ rest) =
      afterMember fuel depth (name, value) (skipSpace rest) := by
  obtain ⟨blanks, body, blank, rfl, inner⟩ := spells
  have read : valueAux fuel depth (body ++ rest) = some (value, rest) := by
    refine inner.reads ?_ ends
    simp only [List.length_append, List.length_cons] at enough
    omega
  rw [List.append_assoc, ← membersAux_skipSpace, skipSpace_append blank, membersAux_skipSpace,
    toList_quote, membersAux]
  simp only [List.cons_append, List.append_assoc, List.nil_append, string?_quote, read,
    skipSpace_cons (show isSpace '"' = false by decide),
    skipSpace_cons (show isSpace ':' = false by decide)]
  rfl

theorem membersAux_intercalate {depth : Nat} {write : String × Json → List Char}
    {gap closing : List Char} (gapBlank : IsBlank gap) (closingBlank : IsBlank closing)
    {members : List (String × Json)} (nonempty : members ≠ [])
    (spells : ∀ member ∈ members, SpellsMember depth (write member) member)
    {fuel : Nat} {rest : List Char}
    (enough : 2 * ((',' :: gap).intercalate (members.map write)).length + 1 < fuel) :
    membersAux fuel depth
      ((',' :: gap).intercalate (members.map write) ++ (closing ++ '}' :: rest)) =
        some (members, rest) := by
  obtain ⟨fuel, rfl⟩ : ∃ n, fuel = n + 1 := ⟨fuel - 1, by omega⟩
  induction members generalizing fuel with
  | nil => exact absurd rfl nonempty
  | cons member members ih =>
    obtain ⟨name, value⟩ := member
    have first := spells (name, value) List.mem_cons_self
    cases members with
    | nil =>
      simp only [List.map_cons, List.map_nil, List.intercalate_singleton] at enough ⊢
      have ends := endsNumber_blanks closingBlank (.inr (.inr rfl)) rest
      rw [first.reads (by omega) ends, skipSpace_append closingBlank, skipSpace_cons (by decide)]
      rfl
    | cons next members =>
      simp only [List.map_cons, List.intercalate_cons_cons, List.append_assoc,
        List.cons_append] at enough ⊢
      simp only [List.length_append, List.length_cons] at enough
      obtain ⟨fuel, rfl⟩ : ∃ n, fuel = n + 1 := ⟨fuel - 1, by omega⟩
      have comma : EndsNumber (',' :: (gap ++
          ((',' :: gap).intercalate (write next :: members.map write) ++
            (closing ++ '}' :: rest)))) := endsNumber_cons (by simp) _
      have afterGap : membersAux (fuel + 1) depth (gap ++
          ((',' :: gap).intercalate (write next :: members.map write) ++
            (closing ++ '}' :: rest))) = some (next :: members, rest) := by
        rw [← membersAux_skipSpace, skipSpace_append gapBlank, membersAux_skipSpace]
        refine ih (List.cons_ne_nil next members)
          (fun member mem => spells member (List.mem_cons_of_mem _ mem)) _ ?_
        rw [List.map_cons]
        omega
      rw [first.reads (by omega) comma, skipSpace_cons (by decide)]
      simp only [afterMember, afterGap, Option.map_some]

theorem spells_empty (depth : Nat) : Spells (depth + 1) ['{', '}'] (obj []) :=
  .of_cons (by decide) (by decide) fun _ _ => rfl

theorem spells_obj {depth : Nat} {write : String × Json → List Char}
    {opening gap closing : List Char} (openingBlank : IsBlank opening) (gapBlank : IsBlank gap)
    (closingBlank : IsBlank closing) {members : List (String × Json)} (nonempty : members ≠ [])
    (spells : ∀ member ∈ members, SpellsMember depth (write member) member) :
    Spells (depth + 1)
      ('{' :: (opening ++ ((',' :: gap).intercalate (members.map write) ++ (closing ++ ['}']))))
      (obj members) := by
  refine .of_cons (by decide) (by decide) fun {fuel rest} enough ends => ?_
  simp only [List.length_append, List.length_cons, List.length_nil] at enough
  simp only [List.append_assoc, List.cons_append, List.nil_append]
  have inner : membersAux fuel depth
      ((',' :: gap).intercalate (members.map write) ++ (closing ++ '}' :: rest)) =
        some (members, rest) :=
    membersAux_intercalate gapBlank closingBlank nonempty spells (by omega)
  obtain ⟨tail, skipped⟩ : ∃ tail,
      skipSpace (opening ++ ((',' :: gap).intercalate (members.map write) ++
        (closing ++ '}' :: rest))) = '"' :: tail := by
    rw [skipSpace_append openingBlank]
    cases members with
    | nil => exact absurd rfl nonempty
    | cons member members =>
      have first := spells member List.mem_cons_self
      cases members with
      | nil =>
        rw [List.map_singleton, List.intercalate_singleton]
        exact first.skipSpace_eq _
      | cons next members =>
        rw [List.map_cons, List.map_cons, List.intercalate_cons_cons]
        simp only [List.append_assoc]
        exact first.skipSpace_eq _
  rw [← membersAux_skipSpace, ← skipSpace_append openingBlank, skipped] at inner
  rw [valueAux, skipSpace_cons (show isSpace '{' = false by decide)]
  simp only [skipped]
  show (membersAux fuel depth ('"' :: tail)).map _ = _
  rw [inner]
  rfl

/-! ## Printed values -/

/-- The value is nested at most `depth` deep, and its numbers are read as they are written. -/
inductive Fits : Nat → Json → Prop
  | null (depth : Nat) : Fits depth null
  | bool (depth : Nat) (value : Bool) : Fits depth (bool value)
  | int {depth : Nat} {value : Int} : -0x8000000000000000 ≤ value → value < 0x10000000000000000 →
      Fits depth (int value)
  | decimal {depth : Nat} {fraction : DecimalFraction} : IsPlain fraction →
      Fits depth (decimal fraction)
  | str (depth : Nat) (text : String) : Fits depth (str text)
  | arr {depth : Nat} {items : List Json} : (∀ item ∈ items, Fits depth item) →
      Fits (depth + 1) (arr items)
  | obj {depth : Nat} {members : List (String × Json)} :
      (∀ member ∈ members, Fits depth member.2) → Fits (depth + 1) (obj members)

theorem Fits.mono {depth depth' : Nat} {value : Json} (fits : Fits depth value)
    (le : depth ≤ depth') : Fits depth' value := by
  induction fits generalizing depth' with
  | null => exact .null _
  | bool => exact .bool _ _
  | int low high => exact .int low high
  | decimal plain => exact .decimal plain
  | str => exact .str _ _
  | arr _ ih =>
    obtain ⟨depth', rfl⟩ : ∃ n, depth' = n + 1 := ⟨depth' - 1, by omega⟩
    exact .arr fun item mem => ih item mem (by omega)
  | obj _ ih =>
    obtain ⟨depth', rfl⟩ : ∃ n, depth' = n + 1 := ⟨depth' - 1, by omega⟩
    exact .obj fun member mem => ih member mem (by omega)

theorem compactItems_eq (items : List Json) : compactItems items = items.map compact := by
  induction items with
  | nil => rfl
  | cons item items ih => rw [compactItems, ih, List.map_cons]

theorem compactMembers_eq (members : List (String × Json)) :
    compactMembers members =
      members.map fun member => quote member.1 ++ ":" ++ compact member.2 := by
  induction members with
  | nil => rfl
  | cons member members ih => rw [compactMembers, ih, List.map_cons]

theorem toList_compact_arr (items : List Json) : (compact (arr items)).toList =
    '[' :: ([] ++ ([','].intercalate (items.map fun item => (compact item).toList) ++
      ([] ++ [']']))) := by
  simp [compact, compactItems_eq, String.toList_intercalate, Function.comp_def]

theorem toList_compact_obj (members : List (String × Json)) : (compact (obj members)).toList =
    '{' :: ([] ++ ([','].intercalate (members.map fun member =>
      (quote member.1 ++ ":" ++ compact member.2).toList) ++ ([] ++ ['}']))) := by
  simp [compact, compactMembers_eq, String.toList_intercalate, Function.comp_def]

/-- The compact form spells its value. -/
theorem spells_compact {depth : Nat} {value : Json} (fits : Fits depth value) :
    Spells depth (compact value).toList value := by
  induction fits with
  | null depth => exact spells_null depth
  | bool depth value =>
    cases value with
    | false => exact spells_false depth
    | true => exact spells_true depth
  | @int depth value low high =>
    rw [compact]
    exact spells_intText depth low high
  | @decimal depth fraction plain =>
    rw [compact]
    exact spells_decimalText depth plain
  | str depth text =>
    rw [compact]
    exact spells_quote depth text
  | @arr depth items _ ih =>
    cases items with
    | nil => exact spells_nil depth
    | cons item items =>
      rw [toList_compact_arr]
      exact spells_arr .nil .nil .nil (List.cons_ne_nil item items) ih
  | @obj depth members _ ih =>
    cases members with
    | nil => exact spells_empty depth
    | cons member members =>
      rw [toList_compact_obj]
      refine spells_obj .nil .nil .nil (List.cons_ne_nil member members) fun member' mem => ?_
      exact ⟨[], (compact member'.2).toList, .nil, by simp, ih member' mem⟩

theorem prettyItems_eq (indent : String) (items : List Json) :
    prettyItems indent items = items.map (prettyFrom indent) := by
  induction items with
  | nil => rfl
  | cons item items ih => rw [prettyItems, ih, List.map_cons]

theorem prettyMembers_eq (indent : String) (members : List (String × Json)) :
    prettyMembers indent members =
      members.map fun member => quote member.1 ++ ": " ++ prettyFrom indent member.2 := by
  induction members with
  | nil => rfl
  | cons member members ih => rw [prettyMembers, ih, List.map_cons]

/-- Lines between brackets, the indentation of each line counted to the line. -/
theorem toList_bracketed {opening closing indent : String} {entries : List String}
    (nonempty : entries ≠ []) :
    (bracketed opening closing indent entries).toList =
      opening.toList ++ (['\n'] ++ ((',' :: ['\n']).intercalate
        (entries.map fun entry => (indent ++ "  ").toList ++ entry.toList) ++
          (('\n' :: indent.toList) ++ closing.toList))) := by
  have notEmpty : entries.isEmpty = false := by simpa using nonempty
  simp [bracketed, notEmpty, String.toList_intercalate, Function.comp_def]

theorem isBlank_deeper {indent : String} (blank : IsBlank indent.toList) :
    IsBlank (indent ++ "  ").toList := by
  rw [String.toList_append]
  exact blank.append (.cons (by decide) (.cons (by decide) .nil))

/-- The form with one value on each line spells its value. -/
theorem spells_prettyFrom {depth : Nat} {value : Json} (fits : Fits depth value) {indent : String}
    (blank : IsBlank indent.toList) : Spells depth (prettyFrom indent value).toList value := by
  have newline : IsBlank ['\n'] := .cons (by decide) .nil
  induction fits generalizing indent with
  | null depth => exact spells_null depth
  | bool depth value =>
    cases value with
    | false => exact spells_false depth
    | true => exact spells_true depth
  | @int depth value low high =>
    rw [prettyFrom]
    exact spells_intText depth low high
  | @decimal depth fraction plain =>
    rw [prettyFrom]
    exact spells_decimalText depth plain
  | str depth text =>
    rw [prettyFrom]
    exact spells_quote depth text
  | @arr depth items _ ih =>
    have deeper := isBlank_deeper blank
    have lineEnd : IsBlank ('\n' :: indent.toList) := .cons (by decide) blank
    rw [prettyFrom, prettyItems_eq]
    cases items with
    | nil => simpa [bracketed] using spells_nil depth
    | cons item items =>
      rw [toList_bracketed (by simp), List.map_map]
      exact spells_arr newline newline lineEnd (List.cons_ne_nil item items)
        fun item' mem => (ih item' mem deeper).blanks deeper
  | @obj depth members _ ih =>
    have deeper := isBlank_deeper blank
    have lineEnd : IsBlank ('\n' :: indent.toList) := .cons (by decide) blank
    rw [prettyFrom, prettyMembers_eq]
    cases members with
    | nil => simpa [bracketed] using spells_empty depth
    | cons member members =>
      rw [toList_bracketed (by simp), List.map_map]
      refine spells_obj newline newline lineEnd (List.cons_ne_nil member members)
        fun member' mem => ?_
      have space : IsBlank [' '] := .cons (by decide) .nil
      refine ⟨(indent ++ "  ").toList, ' ' :: (prettyFrom (indent ++ "  ") member'.2).toList,
        deeper, by simp, (ih member' mem deeper).blanks space⟩

/-! ## Whole texts -/

theorem parse?_of_spells {text : String} {value : Json} (spells : Spells 127 text.toList value) :
    parse? text = some value := by
  have read : valueAux (2 * text.toList.length + 2) 127 (text.toList ++ []) = some (value, []) :=
    spells.reads (by omega) fun _ mem => by simp at mem
  rw [List.append_nil] at read
  simp only [parse?, read]
  rfl

theorem parse?_compact {value : Json} (fits : Fits 127 value) : parse? value.compact = some value :=
  parse?_of_spells (spells_compact fits)

theorem parse?_pretty {value : Json} (fits : Fits 127 value) : parse? value.pretty = some value :=
  parse?_of_spells (spells_prettyFrom fits .nil)

end ChangeImpact.Json
