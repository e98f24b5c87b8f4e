import ChangeImpact.Proofs.Text.Members
import ChangeImpact.Proofs.Text.Utf8

/-!
# The partner of a brace

A block that begins with a brace ends at its partner: the text between them has its braces paired,
and no other closing brace has such a text before it. Where a brace has no partner there is no
block. A count of open braces from the first one on is back at zero at the partner and not before,
so it never goes below zero.
-/

namespace ChangeImpact.Text

variable {depth : Nat} {c : Char} {text front body other : List Char} {start : Nat}

/-! ## Texts that close what is open -/

/-- No front of the text closes more braces than it opens and `depth` more, and the whole closes as
many. -/
def Closes (depth : Nat) (text : List Char) : Prop :=
  (∀ front, front <+: text → front.count '}' ≤ depth + front.count '{') ∧
    text.count '}' = depth + text.count '{'

theorem closes_zero_iff : Closes 0 text ↔ Paired '{' '}' text := by
  simp [Closes, Paired]

theorem closes_nil_iff : Closes depth [] ↔ depth = 0 := by
  simp [Closes, eq_comm]

theorem closes_cons_iff : Closes depth (c :: text) ↔
    (∀ front, front <+: text → (c :: front).count '}' ≤ depth + (c :: front).count '{') ∧
      (c :: text).count '}' = depth + (c :: text).count '{' := by
  refine and_congr_left fun _ => ⟨fun within front begins => ?_, fun within front begins => ?_⟩
  · exact within (c :: front) (List.cons_prefix_cons.mpr ⟨rfl, begins⟩)
  · rcases List.prefix_cons_iff.mp begins with rfl | ⟨later, rfl, begins'⟩
    · exact Nat.zero_le _
    · exact within later begins'

theorem closes_opening_iff : Closes depth ('{' :: text) ↔ Closes (depth + 1) text := by
  rw [closes_cons_iff, Closes]
  simp [Nat.add_assoc, Nat.add_comm 1]

theorem closes_closing_iff : Closes (depth + 1) ('}' :: text) ↔ Closes depth text := by
  rw [closes_cons_iff, Closes]
  simp [Nat.add_right_comm depth 1]

theorem not_closes_closing : ¬ Closes 0 ('}' :: text) := by
  intro closes
  have first := closes.1 ['}'] ⟨text, rfl⟩
  simp at first

theorem closes_other_iff (noOpening : c ≠ '{') (noClosing : c ≠ '}') :
    Closes depth (c :: text) ↔ Closes depth text := by
  rw [closes_cons_iff, Closes]
  simp [noOpening, noClosing]

/-- Behind a text that closes what it may, the rest closes what is left. -/
theorem closes_append_iff {more : Nat} (closes : Closes depth front) :
    Closes (depth + more) (front ++ text) ↔ Closes more text := by
  induction front generalizing depth with
  | nil => rw [closes_nil_iff.mp closes, Nat.zero_add, List.nil_append]
  | cons c front ih =>
    rw [List.cons_append]
    by_cases opens : c = '{'
    · subst opens
      rw [closes_opening_iff, Nat.add_right_comm, ih (closes_opening_iff.mp closes)]
    by_cases ends : c = '}'
    · subst ends
      cases depth with
      | zero => exact absurd closes not_closes_closing
      | succ depth =>
        rw [Nat.add_right_comm, closes_closing_iff, ih (closes_closing_iff.mp closes)]
    · rw [closes_other_iff opens ends, ih ((closes_other_iff opens ends).mp closes)]

/-! ## What a scan finds -/

/-- A scan that finds the end of a block has read a text that closes what was open. -/
theorem exists_of_blockAux {found : List Char} (h : blockAux depth front text = some found) :
    ∃ body rest, text = body ++ '}' :: rest ∧ Closes depth body ∧ found = front.reverse ++ body := by
  fun_induction blockAux depth front text with
  | case1 => cases h
  | case2 depth front rest ih =>
    obtain ⟨body, after, rfl, closes, rfl⟩ := ih h
    exact ⟨'{' :: body, after, rfl, closes_opening_iff.mpr closes, by simp⟩
  | case3 front rest =>
    obtain rfl := Option.some.inj h
    exact ⟨[], rest, rfl, closes_nil_iff.mpr rfl, by simp⟩
  | case4 front rest depth ih =>
    obtain ⟨body, after, rfl, closes, rfl⟩ := ih h
    exact ⟨'}' :: body, after, rfl, closes_closing_iff.mpr closes, by simp⟩
  | case5 depth front c rest noOpening noClosing ih =>
    obtain ⟨body, after, rfl, closes, rfl⟩ := ih h
    exact ⟨c :: body, after, rfl, (closes_other_iff noOpening noClosing).mpr closes, by simp⟩

theorem blockAfterBrace_eq_some_iff : blockAfterBrace text = some body ↔
    Paired '{' '}' body ∧ ∃ rest, text = body ++ '}' :: rest := by
  constructor
  · intro found
    obtain ⟨_, rest, rfl, closes, rfl⟩ := exists_of_blockAux found
    exact ⟨closes_zero_iff.mp closes, rest, rfl⟩
  · rintro ⟨paired, rest, rfl⟩
    exact blockAfterBrace_of_paired paired rest

/-- A scan finds the end of a block in a text that closes more braces than it opens and are open
before it. -/
theorem exists_blockAux (more : depth + text.count '{' < text.count '}') (front : List Char) :
    ∃ found, blockAux depth front text = some found := by
  fun_induction blockAux depth front text with
  | case1 => simp at more
  | case2 depth front rest ih => exact ih (by simp at more; omega)
  | case3 front rest => exact ⟨_, rfl⟩
  | case4 front rest depth ih => exact ih (by simp at more; omega)
  | case5 depth front c rest noOpening noClosing ih =>
    rw [List.count_cons_of_ne noOpening, List.count_cons_of_ne noClosing] at more
    exact ih more

/-- Texts in which every brace has its partner are those that never close more braces than they
open, and as many in the end. -/
theorem balanced_iff_paired : Balanced text ↔ Paired '{' '}' text := by
  rw [← closes_zero_iff]
  constructor
  · intro balanced
    induction balanced with
    | nil => exact closes_nil_iff.mpr rfl
    | plain noOpening noClosing _ ih => exact (closes_other_iff noOpening noClosing).mpr ih
    | block _ _ inside behind =>
      rw [closes_opening_iff, closes_append_iff inside]
      exact closes_closing_iff.mpr behind
  · intro closes
    induction size : text.length using Nat.strongRecOn generalizing text with
    | ind n ih =>
      subst size
      cases text with
      | nil => exact .nil
      | cons c text =>
        by_cases opens : c = '{'
        · subst opens
          have further := closes_opening_iff.mp closes
          have more : 0 + text.count '{' < text.count '}' := by
            rw [further.2]
            omega
          obtain ⟨found, ends⟩ := exists_blockAux more []
          obtain ⟨body, rest, rfl, inside, -⟩ := exists_of_blockAux ends
          rw [closes_append_iff inside, closes_closing_iff] at further
          have size : ('{' :: (body ++ '}' :: rest)).length = body.length + rest.length + 2 := by
            simp only [List.length_cons, List.length_append]
            omega
          exact .block (ih _ (by omega) inside rfl) (ih _ (by omega) further rfl)
        by_cases ends : c = '}'
        · subst ends
          exact absurd closes not_closes_closing
        · have further := (closes_other_iff opens ends).mp closes
          exact .plain opens ends (ih _ (by simp) further rfl)

/-! ## Blocks -/

/-- At a byte offset stands an opening brace, then `body`, whose braces are paired, then a closing
brace. -/
def IsBlockAt (text : List Char) (start : Nat) (body : List Char) : Prop :=
  Paired '{' '}' body ∧
    ∃ front rest, text = front ++ '{' :: (body ++ '}' :: rest) ∧ byteLength front = start

theorem blockAt_eq_some_iff : blockAt text start = some body ↔ IsBlockAt text start body := by
  have opened : blockAt text start = some body ↔
      ∃ rest, dropBytes? text start = some ('{' :: rest) ∧ blockAfterBrace rest = some body := by
    unfold blockAt
    split
    · next rest dropped => simp [dropped]
    · next other =>
      exact ⟨(nomatch ·), fun ⟨rest, dropped, _⟩ => (other rest dropped).elim⟩
  rw [opened]
  constructor
  · rintro ⟨_, dropped, found⟩
    obtain ⟨front, rfl, size⟩ := dropBytes?_eq_some_iff.mp dropped
    obtain ⟨paired, rest, rfl⟩ := blockAfterBrace_eq_some_iff.mp found
    exact ⟨paired, front, rest, rfl, size⟩
  · rintro ⟨paired, front, rest, rfl, size⟩
    exact ⟨_, dropBytes?_eq_some_iff.mpr ⟨front, rfl, size⟩, blockAfterBrace_of_paired paired rest⟩

theorem blockAt_eq_none_iff : blockAt text start = none ↔ ∀ body, ¬ IsBlockAt text start body := by
  simp only [Option.eq_none_iff_forall_ne_some, ne_eq, blockAt_eq_some_iff]

/-! ## The count of open braces -/

inductive BraceCount where
  /-- It is back at zero at the byte of this offset. -/
  | closed (offset : Nat)
  | unclosed
  /-- A brace is closed where none is open. -/
  | belowZero
  deriving DecidableEq, Repr

/-- Counts the open braces over the bytes from an offset on, up to where none is open any more. The
count cannot go below zero. -/
def countBraces (depth offset : Nat) : List UInt8 → BraceCount
  | [] => .unclosed
  | byte :: rest =>
    if byte = '{'.toUInt8 then countBraces (depth + 1) (offset + 1) rest
    else if byte = '}'.toUInt8 then
      if depth = 0 then .belowZero
      else if depth = 1 then .closed offset
      else countBraces (depth - 1) (offset + 1) rest
    else countBraces depth (offset + 1) rest

def BraceCount.ofBlock? (start : Nat) : Option (List Char) → BraceCount
  | some body => .closed (start + 1 + byteLength body)
  | none => .unclosed

theorem countBraces_append_other {others : List UInt8} (noOpening : '{'.toUInt8 ∉ others)
    (noClosing : '}'.toUInt8 ∉ others) (offset : Nat) (rest : List UInt8) :
    countBraces depth offset (others ++ rest) = countBraces depth (offset + others.length) rest := by
  induction others generalizing offset with
  | nil => rfl
  | cons byte others ih =>
    simp only [List.mem_cons, not_or] at noOpening noClosing
    rw [List.cons_append, countBraces, if_neg (Ne.symm noOpening.1), if_neg (Ne.symm noClosing.1),
      ih noOpening.2 noClosing.2, List.length_cons, Nat.add_right_comm, Nat.add_assoc]

/-- A count with one brace more open than a scan has entered ends as the scan does. -/
theorem countBraces_bytes (start : Nat) (depth : Nat) (front text : List Char) :
    countBraces (depth + 1) (start + 1 + byteLength front.reverse) (bytes text) =
      .ofBlock? start (blockAux depth front text) := by
  have onward (c : Char) (front : List Char) : start + 1 + byteLength front.reverse + c.utf8Size =
      start + 1 + byteLength (c :: front).reverse := by
    rw [List.reverse_cons, byteLength_append, ← Nat.add_assoc]
    rfl
  fun_induction blockAux depth front text with
  | case1 => rfl
  | case2 depth front rest ih =>
    rw [← ih, ← onward]
    rfl
  | case3 front rest => rfl
  | case4 front rest depth ih =>
    rw [← ih, ← onward]
    rfl
  | case5 depth front c rest noOpening noClosing ih =>
    have other {d : Char} (ascii : d.val.toNat < 128) (differs : c ≠ d) :
        d.toUInt8 ∉ String.utf8EncodeChar c :=
      fun mem => differs (eq_of_mem_utf8EncodeChar ascii mem)
    rw [bytes_cons, countBraces_append_other (other (by decide) noOpening)
      (other (by decide) noClosing), String.length_utf8EncodeChar, onward, ih]

/-- The count from an opening brace on ends as the search for its partner does, and does not go
below zero. -/
theorem countBraces_drop_bytes (here : (bytes text)[start]? = some '{'.toUInt8) :
    countBraces 0 start ((bytes text).drop start) = .ofBlock? start (blockAt text start) := by
  obtain ⟨front, rest, rfl, rfl⟩ := exists_of_getElem?_bytes (by decide) here
  have block : blockAt (front ++ '{' :: rest) (byteLength front) = blockAux 0 [] rest := by
    rw [blockAt, dropBytes?_byteLength]
    rfl
  rw [block, drop_bytes_byteLength, ← countBraces_bytes]
  rfl

/-- A search from a byte offset on finds a block exactly if one begins there, and then it finds its
body, which is the only one. The count of open braces ends as the search does, and so never goes
below zero. -/
theorem blockAt_exact (text : List Char) (start : Nat) :
    (∀ body, blockAt text start = some body ↔ IsBlockAt text start body) ∧
    (∀ body other, IsBlockAt text start body → IsBlockAt text start other → body = other) ∧
    (blockAt text start = none ↔ ∀ body, ¬ IsBlockAt text start body) ∧
    ((bytes text)[start]? = some '{'.toUInt8 →
      countBraces 0 start ((bytes text).drop start) = .ofBlock? start (blockAt text start)) := by
  refine ⟨fun body => blockAt_eq_some_iff, fun body other one two => ?_, blockAt_eq_none_iff,
    countBraces_drop_bytes⟩
  rw [← blockAt_eq_some_iff] at one two
  exact Option.some.inj (one.symm.trans two)

/-- The offset is one of bytes, and the body ends at the partner of the brace and not at the last. -/
example : blockAt "ä \x7b b: \x7b c: 'ö' \x7d; d: e \x7d \x7d".toList 3 =
    some " b: \x7b c: 'ö' \x7d; d: e ".toList := by
  decide

end ChangeImpact.Text
