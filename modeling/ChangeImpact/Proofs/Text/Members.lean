import ChangeImpact.Text.Block
import ChangeImpact.Proofs.Text.Pieces

/-!
# Blocks and members

A scan of a block counts braces, and a scan of its members counts brackets of three kinds together
and the angle brackets of generic arguments. What the counts are is told by the text alone: where
brackets are paired a scan of the text comes back to where it was, and a member ends where a
separator stands outside all of them.
-/

namespace ChangeImpact.Text

/-! ## Paired brackets -/

/-- No front of the text closes more than it opens, and the whole closes as much. -/
def Paired (opening closing : Char) (text : List Char) : Prop :=
  (∀ front, front <+: text → front.count closing ≤ front.count opening) ∧
    text.count closing = text.count opening

instance (opening closing : Char) (text : List Char) : Decidable (Paired opening closing text) :=
  decidable_of_iff ((∀ n, n < text.length + 1 →
      (text.take n).count closing ≤ (text.take n).count opening) ∧
        text.count closing = text.count opening) <| by
    refine and_congr_left fun _ => ⟨fun within front inside => ?_, fun within n _ => ?_⟩
    · rw [List.prefix_iff_eq_take.mp inside]
      exact within front.length (Nat.lt_succ_of_le inside.length_le)
    · exact within (text.take n) (List.take_prefix n text)

def brackets : List (Char × Char) :=
  [('{', '}'), ('[', ']'), ('(', ')')]

section

variable {opening closing : Char} {one other text : List Char}

theorem paired_of_not_mem (noOpening : opening ∉ text) (noClosing : closing ∉ text) :
    Paired opening closing text := by
  refine ⟨fun front inside => ?_, ?_⟩
  · rw [List.count_eq_zero.mpr fun mem => noClosing (inside.subset mem)]
    exact Nat.zero_le _
  · rw [List.count_eq_zero.mpr noOpening, List.count_eq_zero.mpr noClosing]

theorem Paired.append (paired : Paired opening closing one)
    (paired' : Paired opening closing other) : Paired opening closing (one ++ other) := by
  refine ⟨fun front inside => ?_, by
    rw [List.count_append, List.count_append, paired.2, paired'.2]⟩
  obtain ⟨rest, split⟩ := inside
  rcases List.append_eq_append_iff.mp split with ⟨more, shape, -⟩ | ⟨more, rfl, behind⟩
  · exact paired.1 front ⟨more, shape.symm⟩
  · have within := paired'.1 more ⟨rest, behind.symm⟩
    rw [List.count_append, List.count_append, paired.2]
    omega

theorem paired_flatMap {f : α → List Char} {xs : List α}
    (each : ∀ x ∈ xs, Paired opening closing (f x)) : Paired opening closing (xs.flatMap f) := by
  induction xs with
  | nil => exact paired_of_not_mem List.not_mem_nil List.not_mem_nil
  | cons x xs ih =>
    obtain ⟨first, later⟩ := List.forall_mem_cons.mp each
    exact first.append (ih later)

end

/-! ## Blocks -/

/-- A scan of a block reads on over a text that closes no more braces than are open. -/
theorem blockAux_append {depth : Nat} {text : List Char}
    (within : ∀ front, front <+: text → front.count '}' ≤ depth + front.count '{')
    (front rest : List Char) : blockAux depth front (text ++ rest) =
      blockAux (depth + text.count '{' - text.count '}') (text.reverse ++ front) rest := by
  induction text generalizing depth front with
  | nil => simp
  | cons c text ih =>
    have inside (front : List Char) (begins : front <+: text) :=
      within (c :: front) (List.cons_prefix_cons.mpr ⟨rfl, begins⟩)
    by_cases opens : c = '{'
    · subst opens
      have deeper : ∀ front, front <+: text → front.count '}' ≤ depth + 1 + front.count '{' := by
        intro front begins
        have := inside front begins
        simp at this
        omega
      rw [List.cons_append, blockAux, ih deeper]
      simp [Nat.add_assoc, Nat.add_comm 1]
    by_cases closes : c = '}'
    · subst closes
      cases depth with
      | zero => simpa using inside [] (List.nil_prefix)
      | succ depth =>
        have higher : ∀ front, front <+: text → front.count '}' ≤ depth + front.count '{' := by
          intro front begins
          have := inside front begins
          simp at this
          omega
        rw [List.cons_append, blockAux, ih higher]
        simp [Nat.add_right_comm depth 1]
    · have level : ∀ front, front <+: text → front.count '}' ≤ depth + front.count '{' := by
        intro front begins
        simpa [opens, closes] using inside front begins
      rw [List.cons_append, blockAux, ih level]
      · simp [opens, closes]
      · exact opens
      · exact closes

theorem blockAfterBrace_of_paired {body : List Char} (paired : Paired '{' '}' body)
    (rest : List Char) : blockAfterBrace (body ++ '}' :: rest) = some body := by
  have within : ∀ front, front <+: body → front.count '}' ≤ 0 + front.count '{' := by
    intro front begins
    rw [Nat.zero_add]
    exact paired.1 front begins
  rw [blockAfterBrace, blockAux_append within, paired.2, Nat.zero_add, Nat.sub_self, blockAux]
  simp

/-! ## Where a scan of members stands -/

namespace Nesting

def after (nesting : Nesting) (text : List Char) : Nesting :=
  text.foldl step nesting

variable (nesting : Nesting)

@[simp] theorem after_nil : nesting.after [] = nesting := rfl

@[simp] theorem after_cons (c : Char) (text : List Char) :
    nesting.after (c :: text) = (nesting.step c).after text := rfl

@[simp] theorem last_step (c : Char) : (nesting.step c).last = c := by
  unfold step
  repeat' split
  all_goals rfl

theorem depth_after (text : List Char) : (nesting.after text).depth = nesting.depth +
    ((text.count '{' : Int) - text.count '}') + ((text.count '[' : Int) - text.count ']') +
      ((text.count '(' : Int) - text.count ')') := by
  induction text generalizing nesting with
  | nil => simp
  | cons c text ih =>
    rw [after_cons, ih]
    simp only [List.count_cons]
    unfold step
    grind

end Nesting

/-! ## Generic arguments -/

/-- The brackets of generic arguments in a text behind a character, in order: `true` for a `<` that
stands right behind a letter or digit, `false` for a `>` that does not end an arrow. -/
def angles (last : Char) : List Char → List Bool
  | [] => []
  | c :: rest =>
    if c == '<' && isAlphanumeric last then true :: angles c rest
    else if c == '>' && last != '=' then false :: angles c rest
    else angles c rest

/-- Whatever is opened is closed later: no end of the list opens more than it closes. -/
def AllClosed (marks : List Bool) : Prop :=
  ∀ back, back <:+ marks → back.count true ≤ back.count false

/-- How many are open: a closing bracket closes one of them, or nothing. -/
def stillOpen (count : Nat) (marks : List Bool) : Nat :=
  marks.foldl (fun count opens => if opens then count + 1 else count - 1) count

theorem allClosed_cons {opens : Bool} {marks : List Bool} : AllClosed (opens :: marks) ↔
    AllClosed marks ∧ (opens :: marks).count true ≤ (opens :: marks).count false := by
  simp only [AllClosed, List.suffix_cons_iff, forall_eq_or_imp, and_comm]

theorem AllClosed.count_le {marks : List Bool} (closed : AllClosed marks) :
    marks.count true ≤ marks.count false :=
  closed marks (List.suffix_refl marks)

/-- Nothing is open in the end if whatever is opened is closed later, and what has been open before
is closed too. -/
theorem stillOpen_eq_zero_iff {count : Nat} {marks : List Bool} : stillOpen count marks = 0 ↔
    AllClosed marks ∧ count + marks.count true ≤ marks.count false := by
  induction marks generalizing count with
  | nil => simp [stillOpen, AllClosed]
  | cons opens marks ih =>
    have step : stillOpen count (opens :: marks) =
        stillOpen (if opens then count + 1 else count - 1) marks := rfl
    rw [step, ih, allClosed_cons, and_assoc]
    refine and_congr_right fun closed => ?_
    have whole := closed.count_le
    cases opens <;> simp <;> omega

theorem stillOpen_zero_iff {marks : List Bool} : stillOpen 0 marks = 0 ↔ AllClosed marks := by
  rw [stillOpen_eq_zero_iff, Nat.zero_add]
  exact and_iff_left_of_imp AllClosed.count_le

instance (marks : List Bool) : Decidable (AllClosed marks) :=
  decidable_of_iff _ stillOpen_zero_iff

theorem stillOpen_angles_cons (count : Nat) (last c : Char) (text : List Char) :
    stillOpen count (angles last (c :: text)) = stillOpen
      (if c == '<' && isAlphanumeric last then count + 1
        else if c == '>' && last != '=' then count - 1 else count) (angles c text) := by
  rw [angles]
  split
  · rfl
  · split <;> rfl

theorem Nesting.angle_step (nesting : Nesting) (c : Char) : (nesting.step c).angle =
    if c == '<' && isAlphanumeric nesting.last then nesting.angle + 1
    else if c == '>' && nesting.last != '=' then nesting.angle - 1 else nesting.angle := by
  unfold step
  grind

/-- The angle brackets counted are those of the generic arguments still open. -/
theorem Nesting.angle_after (nesting : Nesting) (text : List Char) :
    (nesting.after text).angle = stillOpen nesting.angle (angles nesting.last text) := by
  induction text generalizing nesting with
  | nil => rfl
  | cons c text ih => rw [after_cons, ih, last_step, angle_step, stillOpen_angles_cons]

/-- Where all brackets are paired and all generic arguments closed, the scan is where it was. -/
theorem Nesting.after_of_paired {text : List Char}
    (paired : ∀ pair ∈ brackets, text.count pair.2 = text.count pair.1)
    (closed : AllClosed (angles ' ' text)) :
    ∃ last, after ⟨0, 0, ' '⟩ text = ⟨0, 0, last⟩ := by
  have depth := depth_after ⟨0, 0, ' '⟩ text
  have angle := angle_after ⟨0, 0, ' '⟩ text
  simp only [brackets, List.forall_mem_cons] at paired
  rw [paired.1, paired.2.1, paired.2.2.1] at depth
  rw [stillOpen_zero_iff.mpr closed] at angle
  cases stands : after ⟨0, 0, ' '⟩ text with
  | mk depth' angle' last =>
    simp only [stands, Int.sub_self, Int.add_zero] at depth angle
    exact ⟨last, by rw [depth, angle]⟩

def isBracket (c : Char) : Bool :=
  ['{', '}', '[', ']', '(', ')', '<', '>'].contains c

theorem Nesting.after_of_bare {text : List Char} (bare : ∀ c ∈ text, isBracket c = false)
    (nesting : Nesting) :
    nesting.after text = ⟨nesting.depth, nesting.angle, text.getLast?.getD nesting.last⟩ := by
  induction text generalizing nesting with
  | nil => rfl
  | cons c text ih =>
    obtain ⟨other, bare⟩ := List.forall_mem_cons.mp bare
    have step : nesting.step c = ⟨nesting.depth, nesting.angle, c⟩ := by
      simp [isBracket] at other
      simp [Nesting.step, other]
    rw [after_cons, step, ih bare]
    cases text <;> simp [List.getLast?_cons]

/-! ## Members -/

/-- Whether a text leaves a bracket or a generic argument open. -/
def LeavesOpen (text : List Char) : Prop :=
  (∃ pair ∈ brackets, text.count pair.2 < text.count pair.1) ∨ ¬ AllClosed (angles ' ' text)

instance (text : List Char) : Decidable (LeavesOpen text) :=
  inferInstanceAs (Decidable (_ ∨ _))

theorem Nesting.outside_after_eq_false_iff {text : List Char}
    (within : ∀ pair ∈ brackets, text.count pair.2 ≤ text.count pair.1) :
    (after ⟨0, 0, ' '⟩ text).outside = false ↔ LeavesOpen text := by
  have depth := depth_after ⟨0, 0, ' '⟩ text
  have angle := angle_after ⟨0, 0, ' '⟩ text
  simp only [brackets, List.forall_mem_cons] at within
  simp only [outside, LeavesOpen, brackets, Bool.and_eq_false_iff, decide_eq_false_iff_not,
    beq_eq_false_iff_ne, depth, angle, ← stillOpen_zero_iff]
  simp
  omega

variable {nesting : Nesting} {text rest : List Char}

/-- A scan reads on over a text in which every separator stands inside of something. -/
theorem membersAux_append (inside : ∀ before c later, text = before ++ c :: later →
    isMemberSeparator c = true → (nesting.after before).outside = false) (front : List Char) :
    membersAux nesting front (text ++ rest) =
      membersAux (nesting.after text) (text.reverse ++ front) rest := by
  induction text generalizing nesting front with
  | nil => rfl
  | cons c text ih =>
    have here : (isMemberSeparator c && nesting.outside) = false := by
      cases separates : isMemberSeparator c with
      | false => rfl
      | true => simpa using inside [] c text rfl separates
    rw [List.cons_append, membersAux, here, if_neg Bool.false_ne_true,
      ih fun before d later split separates =>
        inside (c :: before) d later (by rw [split, List.cons_append]) separates]
    simp

/-- A scan reads on over a text without brackets and separators, and stands where it stood. -/
theorem membersAux_bare (bare : ∀ c ∈ text, isBracket c = false ∧ isMemberSeparator c = false)
    (front : List Char) : membersAux nesting front (text ++ rest) =
      membersAux ⟨nesting.depth, nesting.angle, text.getLast?.getD nesting.last⟩
        (text.reverse ++ front) rest := by
  rw [membersAux_append, Nesting.after_of_bare fun c mem => (bare c mem).1]
  rintro before c later rfl separates
  have other := (bare c (List.mem_append_right before List.mem_cons_self)).2
  rw [separates] at other
  exact absurd other Bool.noConfusion

theorem membersAux_separator {c : Char} (separates : isMemberSeparator c = true)
    (outside : nesting.outside = true) (front : List Char) :
    membersAux nesting front (c :: rest) =
      (member? front.reverse).toList ++ membersAux (nesting.step c) [] rest := by
  simp [membersAux, separates, outside]

def commentMarks : List String :=
  ["//", "*", "/*"]

theorem member?_eq_some {raw member : List Char} (trimmed : trimChars raw = member)
    (nonempty : member ≠ []) (noComment : ∀ mark ∈ commentMarks, ¬ mark.toList <+: member) :
    member? raw = some member := by
  rw [member?, trimmed]
  split
  · exact absurd rfl nonempty
  · simp [commentMarks] at noComment
  · simp [commentMarks] at noComment
  · simp [commentMarks] at noComment
  · rfl

theorem member?_append {blanks : List Char} {c : Char}
    (blank : ∀ d ∈ blanks, isBlank d = true) (trimmed : IsTrimmed (c :: text)) (noStar : c ≠ '*')
    (noSlash : c ≠ '/') : member? (blanks ++ c :: text) = some (c :: text) := by
  refine member?_eq_some (trimChars_append_end blank trimmed) (List.cons_ne_nil c text) ?_
  simp [commentMarks, Ne.symm noStar, Ne.symm noSlash]

end ChangeImpact.Text
