import ChangeImpact.Proofs.Text.Members

/-!
# Members put together and split again

A separator at which nothing is open ends whatever is before it: what follows is split as if it
stood alone. So members that are put together with separators and blanks between them are what
splitting gives back.
-/

namespace ChangeImpact.Text

variable {nesting : Nesting} {c : Char} {text front rest gap : List Char}

/-! ## What a scan carries over -/

namespace Nesting

/-- No bracket and no generic argument is open. -/
def IsLevel (nesting : Nesting) : Prop :=
  nesting.depth = 0 ∧ nesting.angle = 0

instance (nesting : Nesting) : Decidable nesting.IsLevel :=
  inferInstanceAs (Decidable (_ ∧ _))

/-- Nothing is open, and the last character makes neither a generic argument of a `<` nor an arrow
of a `>`. -/
structure IsFresh (nesting : Nesting) : Prop where
  level : nesting.IsLevel
  noName : isAlphanumeric nesting.last = false
  noArrow : nesting.last ≠ '='

theorem IsLevel.outside (level : nesting.IsLevel) : nesting.outside = true := by
  simp [Nesting.outside, level.1, level.2]

theorem outside_eq_false_of_not_isLevel (within : 0 ≤ nesting.depth) (level : ¬ nesting.IsLevel) :
    nesting.outside = false := by
  simp only [IsLevel] at level
  simp only [Nesting.outside, Bool.and_eq_false_iff, decide_eq_false_iff_not, beq_eq_false_iff_ne]
  omega

/-- A fresh scan goes on like one that has just begun. -/
theorem IsFresh.step_eq (fresh : nesting.IsFresh) (c : Char) : nesting.step c = start.step c := by
  obtain ⟨depth, angle, last⟩ := nesting
  obtain ⟨⟨rfl, rfl⟩, noName, noArrow⟩ := fresh
  have noName' : isAlphanumeric (Char.ofNat 0) = false := by decide
  simp only at noName noArrow
  simp [step, start, noName, noName', noArrow]

theorem after_append (nesting : Nesting) (front rest : List Char) :
    nesting.after (front ++ rest) = (nesting.after front).after rest :=
  List.foldl_append

end Nesting

theorem membersAux_of_isFresh (fresh : nesting.IsFresh) (front text : List Char) :
    membersAux nesting front text = membersAux .start front text := by
  cases text with
  | nil => rfl
  | cons c rest =>
    rw [membersAux, membersAux, fresh.step_eq, fresh.level.outside]
    rfl

/-! ## Gaps -/

def isGapChar (c : Char) : Bool :=
  isBlank c || isMemberSeparator c

def IsGap (gap : List Char) : Prop :=
  ∀ c ∈ gap, isGapChar c = true

instance (gap : List Char) : Decidable (IsGap gap) :=
  inferInstanceAs (Decidable (∀ c ∈ gap, _))

def blankPoints : List Nat :=
  List.range' 0x09 5 ++ [0x20, 0x85, 0xA0, 0x1680] ++ List.range' 0x2000 11 ++
    [0x2028, 0x2029, 0x202F, 0x205F, 0x3000]

theorem mem_blankPoints (blank : isBlank c = true) : c.toNat ∈ blankPoints := by
  simp [isBlank] at blank
  simp [blankPoints]
  omega

/-- What may stand between two members is neither a bracket nor the end of a name, and begins no
arrow. -/
theorem isGapChar_spec (between : isGapChar c = true) :
    isBracket c = false ∧ isAlphanumeric c = false ∧ c ≠ '=' := by
  rcases Bool.or_eq_true _ _ ▸ between with blank | separates
  · have each : ∀ n ∈ blankPoints, isBracket (Char.ofNat n) = false ∧
        isAlphanumeric (Char.ofNat n) = false ∧ Char.ofNat n ≠ '=' := by
      decide +kernel
    have here := each c.toNat (mem_blankPoints blank)
    rwa [Char.ofNat_toNat] at here
  · simp only [isMemberSeparator, Bool.or_eq_true, beq_iff_eq] at separates
    rcases separates with (rfl | rfl) | rfl <;> decide

theorem isGapChar_of_isMemberSeparator (separates : isMemberSeparator c = true) :
    isGapChar c = true := by
  rw [isGapChar, separates, Bool.or_true]

namespace Nesting

theorem step_of_isGapChar (between : isGapChar c = true) (nesting : Nesting) :
    nesting.step c = ⟨nesting.depth, nesting.angle, c⟩ := by
  have bare : ∀ d ∈ [c], isBracket d = false := by
    simpa using (isGapChar_spec between).1
  simpa using after_of_bare bare nesting

theorem IsLevel.isFresh_step (level : nesting.IsLevel) (between : isGapChar c = true) :
    (nesting.step c).IsFresh := by
  obtain ⟨-, noName, noArrow⟩ := isGapChar_spec between
  rw [step_of_isGapChar between]
  exact ⟨level, noName, noArrow⟩

theorem IsLevel.after_gap (level : nesting.IsLevel) (between : IsGap gap) :
    (nesting.after gap).IsLevel := by
  rw [after_of_bare fun c mem => (isGapChar_spec (between c mem)).1]
  exact level

end Nesting

theorem isLevel_start : Nesting.start.IsLevel :=
  ⟨rfl, rfl⟩

/-! ## Separators -/

/-- A separator at which nothing is open cuts a text in two. -/
theorem membersAux_append_separator (outside : (nesting.after text).outside = true)
    (separates : isMemberSeparator c = true) (front rest : List Char) :
    membersAux nesting front (text ++ c :: rest) =
      membersAux nesting front text ++ membersAux ((nesting.after text).step c) [] rest := by
  induction text generalizing nesting front with
  | nil => exact membersAux_separator separates outside front
  | cons d text ih =>
    rw [List.cons_append, membersAux, membersAux]
    split
    · rw [ih outside, List.append_assoc]
      rfl
    · rw [ih outside]
      rfl

theorem members_append_separator (level : (Nesting.start.after front).IsLevel)
    (separates : isMemberSeparator c = true) (rest : List Char) :
    members (front ++ c :: rest) = members front ++ members rest := by
  have fresh := level.isFresh_step (isGapChar_of_isMemberSeparator separates)
  rw [members, membersAux_append_separator level.outside separates, membersAux_of_isFresh fresh]
  rfl

/-! ## Blanks -/

theorem member?_blanks_append {blanks : List Char} (blank : ∀ c ∈ blanks, isBlank c = true)
    (text : List Char) : member? (blanks ++ text) = member? text := by
  have trimmed : trimChars (blanks ++ text) = trimChars text := by
    rw [trimChars, trimStartChars, List.dropWhile_append_of_pos blank]
    rfl
  rw [member?, trimmed, member?]

/-- Blanks at the beginning of a member are left out of it. -/
theorem membersAux_append_blanks {blanks : List Char} (blank : ∀ c ∈ blanks, isBlank c = true)
    (front text : List Char) :
    membersAux nesting (front ++ blanks) text = membersAux nesting front text := by
  have listed (front : List Char) :
      member? (front ++ blanks).reverse = member? front.reverse := by
    rw [List.reverse_append]
    exact member?_blanks_append (fun c mem => blank c (List.mem_reverse.mp mem)) _
  induction text generalizing nesting front with
  | nil => rw [membersAux, membersAux, listed]
  | cons c text ih => rw [membersAux, membersAux, listed, ← List.cons_append, ih]

theorem members_gap_append (between : IsGap gap) (rest : List Char) :
    members (gap ++ rest) = members rest := by
  induction gap with
  | nil => rfl
  | cons c gap ih =>
    obtain ⟨first, later⟩ := List.forall_mem_cons.mp between
    rw [List.cons_append, ← ih later]
    cases separates : isMemberSeparator c with
    | true =>
      have level : (Nesting.start.after []).IsLevel := isLevel_start
      exact members_append_separator level separates (gap ++ rest)
    | false =>
      have blank : ∀ d ∈ [c], isBlank d = true := by
        simpa [isGapChar, separates] using first
      have fresh := isLevel_start.isFresh_step first
      rw [members, membersAux, separates, Bool.false_and, if_neg Bool.false_ne_true,
        membersAux_of_isFresh fresh]
      exact membersAux_append_blanks blank [] (gap ++ rest)

/-! ## Members -/

/-- A text that is one member: it does not begin like a comment, closes no bracket that it has not
opened and leaves none and no generic argument open, and its separators stand inside of these. -/
structure IsMember (text : List Char) : Prop where
  nonempty : text ≠ []
  trimmed : IsTrimmed text
  noComment : ∀ mark ∈ commentMarks, ¬ mark.toList <+: text
  within : ∀ n, n ≤ text.length → 0 ≤ (Nesting.start.after (text.take n)).depth
  level : (Nesting.start.after text).IsLevel
  inside : ∀ i (h : i < text.length), isMemberSeparator text[i] = true →
    ¬ (Nesting.start.after (text.take i)).IsLevel

instance (text : List Char) : Decidable (IsMember text) :=
  decidable_of_iff (text ≠ [] ∧ ((∀ c ∈ text.head?, isBlank c = false) ∧
      ∀ c ∈ text.getLast?, isBlank c = false) ∧ (∀ mark ∈ commentMarks, ¬ mark.toList <+: text) ∧
      (∀ n, n ≤ text.length → 0 ≤ (Nesting.start.after (text.take n)).depth) ∧
      (Nesting.start.after text).IsLevel ∧
      ∀ i (h : i < text.length), isMemberSeparator text[i] = true →
        ¬ (Nesting.start.after (text.take i)).IsLevel)
    ⟨fun ⟨nonempty, ⟨head, last⟩, noComment, within, level, inside⟩ =>
      ⟨nonempty, ⟨head, last⟩, noComment, within, level, inside⟩,
    fun member => ⟨member.nonempty, ⟨member.trimmed.head, member.trimmed.last⟩, member.noComment,
      member.within, member.level, member.inside⟩⟩

namespace IsMember

variable {member : List Char}

theorem member?_append (isMember : IsMember member) {blanks : List Char}
    (blank : ∀ c ∈ blanks, isBlank c = true) : member? (member ++ blanks) = some member :=
  member?_eq_some (trimChars_append (List.forall_mem_nil _) isMember.trimmed blank)
    isMember.nonempty isMember.noComment

/-- A scan of a member ends none. -/
theorem outside_eq_false (isMember : IsMember member) {before later : List Char}
    (split : member = before ++ c :: later) (separates : isMemberSeparator c = true) :
    (Nesting.start.after before).outside = false := by
  subst split
  have within := isMember.within before.length (by simp)
  have inside := isMember.inside before.length (by simp) (by simpa using separates)
  rw [List.take_left] at within inside
  exact Nesting.outside_eq_false_of_not_isLevel within inside

/-- A member and blanks without a separator are listed as the member. -/
theorem members_append (isMember : IsMember member) {blanks : List Char} (between : IsGap blanks)
    (noSeparator : ∀ c ∈ blanks, isMemberSeparator c = false) :
    members (member ++ blanks) = [member] := by
  have blank : ∀ c ∈ blanks, isBlank c = true := by
    intro c mem
    simpa [isGapChar, noSeparator c mem] using between c mem
  have bare : ∀ c ∈ blanks, isBracket c = false ∧ isMemberSeparator c = false :=
    fun c mem => ⟨(isGapChar_spec (between c mem)).1, noSeparator c mem⟩
  have listed : member? (blanks.reverse ++ member.reverse).reverse = some member := by
    rw [← List.reverse_append, List.reverse_reverse, isMember.member?_append blank]
  have ended := @membersAux_bare (Nesting.start.after member) blanks [] bare member.reverse
  rw [List.append_nil] at ended
  rw [members, membersAux_append fun before c later => isMember.outside_eq_false, List.append_nil,
    ended, membersAux, listed]
  rfl

/-- What is behind a member and the gap after it is split as if it stood alone. -/
theorem members_append_gap (isMember : IsMember member) (between : IsGap gap) {rest : List Char}
    (apart : rest = [] ∨ ∃ c ∈ gap, isMemberSeparator c = true) :
    members (member ++ gap ++ rest) = member :: members rest := by
  cases first : gap.find? isMemberSeparator with
  | none =>
    have noSeparator : ∀ c ∈ gap, isMemberSeparator c = false := by
      simpa using first
    have rest_eq : rest = [] := by
      refine apart.resolve_right fun ⟨c, mem, separates⟩ => ?_
      rw [noSeparator c mem] at separates
      cases separates
    subst rest_eq
    rw [List.append_nil, isMember.members_append between noSeparator]
    rfl
  | some c =>
    obtain ⟨separates, blanks, later, rfl, noSeparator⟩ := List.find?_eq_some_iff_append.mp first
    have before : IsGap blanks := fun d mem => between d (List.mem_append_left _ mem)
    have behind : IsGap later := fun d mem =>
      between d (List.mem_append_right _ (List.mem_cons_of_mem _ mem))
    have level : (Nesting.start.after (member ++ blanks)).IsLevel := by
      rw [Nesting.after_append]
      exact isMember.level.after_gap before
    calc members (member ++ (blanks ++ c :: later) ++ rest)
      _ = members ((member ++ blanks) ++ c :: (later ++ rest)) := by simp
      _ = members (member ++ blanks) ++ members (later ++ rest) :=
        members_append_separator level separates _
      _ = member :: members rest := by
        rw [isMember.members_append before (by simpa using noSeparator), members_gap_append behind]
        rfl

end IsMember

/-! ## Members put together -/

structure Piece where
  member : List Char
  gap : List Char
  isMember : IsMember member
  isGap : IsGap gap

/-- A gap, and members each with a gap behind it. -/
def joinPieces (lead : List Char) (pieces : List Piece) : List Char :=
  lead ++ pieces.flatMap fun piece => piece.member ++ piece.gap

def Separated (pieces : List Piece) : Prop :=
  ∀ piece ∈ pieces.dropLast, ∃ c ∈ piece.gap, isMemberSeparator c = true

-- Decided by looking at the characters of the gaps, not at all characters.
instance (pieces : List Piece) : Decidable (Separated pieces) :=
  decidable_of_iff (pieces.dropLast.all fun piece => piece.gap.any isMemberSeparator) <| by
    simp only [Separated, List.all_eq_true, List.any_eq_true]

theorem members_joinPieces_nil {pieces : List Piece} (separated : Separated pieces) :
    members (joinPieces [] pieces) = pieces.map Piece.member := by
  induction pieces with
  | nil => rfl
  | cons piece pieces ih =>
    have further : Separated pieces := by
      cases pieces with
      | nil => exact List.forall_mem_nil _
      | cons next pieces => exact (List.forall_mem_cons.mp separated).2
    have apart : joinPieces [] pieces = [] ∨ ∃ c ∈ piece.gap, isMemberSeparator c = true := by
      cases pieces with
      | nil => exact .inl rfl
      | cons next pieces => exact .inr ((List.forall_mem_cons.mp separated).1)
    rw [List.map_cons, ← ih further]
    exact piece.isMember.members_append_gap piece.isGap apart

/-- Splitting members that are put together with separators gives the members back, whatever blanks
and further separators are around them. Any separator at which nothing is open cuts a text into two
that are split each for itself. -/
theorem members_join :
    (∀ (lead : List Char) (pieces : List Piece), IsGap lead → Separated pieces →
      members (joinPieces lead pieces) = pieces.map Piece.member) ∧
    ∀ (front rest : List Char) (c : Char), isMemberSeparator c = true →
      (Nesting.start.after front).depth = 0 → (Nesting.start.after front).angle = 0 →
        members (front ++ c :: rest) = members front ++ members rest := by
  constructor
  · intro lead pieces between separated
    rw [joinPieces, members_gap_append between]
    exact members_joinPieces_nil separated
  · intro front rest c separates depth angle
    exact members_append_separator ⟨depth, angle⟩ separates rest

/-- A comma in a generic argument, an arrow and a semicolon in braces are no ends of members. -/
theorem members_join_arrow_in_argument :
    members "\n  id: string;\n  map: Map<K, () => void>, ;\n  nested: \x7b a: 1; b: 2 \x7d\n".toList =
      ["id: string".toList, "map: Map<K, () => void>".toList,
        "nested: \x7b a: 1; b: 2 \x7d".toList] ∧
    members ("// note, f: (a, b) => c".toList ++ '\n' :: "d < e; g".toList) =
      members "// note, f: (a, b) => c".toList ++ members "d < e; g".toList :=
  ⟨members_join.1 "\n  ".toList
    [⟨"id: string".toList, ";\n  ".toList, by decide, by decide⟩,
      ⟨"map: Map<K, () => void>".toList, ", ;\n  ".toList, by decide, by decide⟩,
      ⟨"nested: \x7b a: 1; b: 2 \x7d".toList, "\n".toList, by decide, by decide⟩]
    (by decide) (by decide),
  members_join.2 _ _ '\n' (by decide) (by decide) (by decide)⟩

end ChangeImpact.Text
