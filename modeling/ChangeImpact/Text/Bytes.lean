/-!
# Byte offsets into UTF-8 text

Positions are byte offsets. A text is a list of characters, so cutting it at an offset succeeds only
where a character begins or the text ends.
-/

namespace ChangeImpact.Text

def byteLength : List Char → Nat
  | [] => 0
  | c :: rest => c.utf8Size + byteLength rest

/-- The text from a byte offset on, if the offset is the boundary of a character. -/
def dropBytes? : List Char → Nat → Option (List Char)
  | text, 0 => some text
  | [], _ + 1 => none
  | c :: rest, n + 1 => if c.utf8Size ≤ n + 1 then dropBytes? rest (n + 1 - c.utf8Size) else none

/-- The characters that begin within the first `n` bytes. -/
def takeBytes : List Char → Nat → List Char
  | [], _ => []
  | c :: rest, n => if n = 0 then [] else c :: takeBytes rest (n - c.utf8Size)

theorem byteLength_append (front rest : List Char) :
    byteLength (front ++ rest) = byteLength front + byteLength rest := by
  induction front with
  | nil => simp [byteLength]
  | cons c front ih => rw [List.cons_append, byteLength, byteLength, ih, Nat.add_assoc]

theorem dropBytes?_zero (text : List Char) : dropBytes? text 0 = some text := by
  cases text <;> rfl

theorem dropBytes?_byteLength (front rest : List Char) :
    dropBytes? (front ++ rest) (byteLength front) = some rest := by
  induction front with
  | nil => exact dropBytes?_zero rest
  | cons c front ih =>
    have size : 0 < c.utf8Size := Char.utf8Size_pos c
    have split : byteLength (c :: front) = (c.utf8Size - 1 + byteLength front) + 1 := by
      simp [byteLength]; omega
    rw [split, List.cons_append, dropBytes?]
    rw [if_pos (by omega)]
    rw [show c.utf8Size - 1 + byteLength front + 1 - c.utf8Size = byteLength front by omega]
    exact ih

/-- A text is cut at an offset behind a front of as many bytes. -/
theorem dropBytes?_eq_some_iff {text rest : List Char} {n : Nat} :
    dropBytes? text n = some rest ↔ ∃ front, text = front ++ rest ∧ byteLength front = n := by
  constructor
  · intro dropped
    fun_induction dropBytes? text n with
    | case1 text =>
      obtain rfl := Option.some.inj dropped
      exact ⟨[], rfl, rfl⟩
    | case2 n => cases dropped
    | case3 c text n fits ih =>
      obtain ⟨front, rfl, size⟩ := ih dropped
      exact ⟨c :: front, rfl, by rw [byteLength, size]; omega⟩
    | case4 c text n fits => cases dropped
  · rintro ⟨front, rfl, rfl⟩
    exact dropBytes?_byteLength front rest

theorem takeBytes_byteLength (front rest : List Char) :
    takeBytes (front ++ rest) (byteLength front) = front := by
  induction front with
  | nil => cases rest <;> simp [byteLength, takeBytes]
  | cons c front ih =>
    have size : 0 < c.utf8Size := Char.utf8Size_pos c
    have split : byteLength (c :: front) = c.utf8Size + byteLength front := by simp [byteLength]
    rw [List.cons_append, takeBytes, if_neg (by omega), split, Nat.add_sub_cancel_left, ih]

end ChangeImpact.Text
