import ChangeImpact.Text.Bytes

/-!
# Texts as bytes

The UTF-8 bytes of a text. A byte below 128 is a whole character, so what is found by looking at
such bytes alone stands at the boundary of a character.
-/

namespace ChangeImpact.Text

def bytes (text : List Char) : List UInt8 :=
  text.flatMap String.utf8EncodeChar

@[simp] theorem bytes_nil : bytes [] = [] := rfl

@[simp] theorem bytes_cons (c : Char) (text : List Char) :
    bytes (c :: text) = String.utf8EncodeChar c ++ bytes text := rfl

@[simp] theorem length_bytes (text : List Char) : (bytes text).length = byteLength text := by
  induction text with
  | nil => rfl
  | cons c text ih =>
    rw [bytes_cons, List.length_append, String.length_utf8EncodeChar, ih, byteLength]

theorem toNat_ofNat_of_ascii {n : Nat} (ascii : n < 128) : (UInt8.ofNat n).toNat = n :=
  UInt8.toNat_ofNat_of_lt' (Nat.lt_trans ascii (by decide))

/-- A byte below 128 is the only one of its character. -/
theorem utf8EncodeChar_eq_of_mem {c : Char} {byte : UInt8} (mem : byte ∈ String.utf8EncodeChar c)
    (ascii : byte.toNat < 128) : String.utf8EncodeChar c = [byte] ∧ c.val.toNat = byte.toNat := by
  have above {n high : Nat} (large : 128 ≤ high) (bound : n + high < 256) :
      byte ≠ UInt8.ofNat (n + high) := by
    rintro rfl
    rw [UInt8.toNat_ofNat_of_lt' bound] at ascii
    omega
  -- The last bytes of a character of several, and the first one by their number.
  have later (n : Nat) : byte ≠ UInt8.ofNat (n % 64 + 128) := above (by omega) (by omega)
  have ofTwo (n : Nat) : byte ≠ UInt8.ofNat (n % 32 + 192) := above (by omega) (by omega)
  have ofThree (n : Nat) : byte ≠ UInt8.ofNat (n % 16 + 224) := above (by omega) (by omega)
  have ofFour (n : Nat) : byte ≠ UInt8.ofNat (n % 8 + 240) := above (by omega) (by omega)
  by_cases small : c.val.toNat ≤ 127
  · have single : String.utf8EncodeChar c = [UInt8.ofNat c.val.toNat] := if_pos small
    rw [single] at mem ⊢
    obtain rfl := List.mem_singleton.mp mem
    exact ⟨rfl, (toNat_ofNat_of_ascii (by omega)).symm⟩
  · exfalso
    simp only [String.utf8EncodeChar, if_neg small] at mem
    split at mem
    · simp only [List.mem_cons, ofTwo, later, List.not_mem_nil, or_self] at mem
    · split at mem
      · simp only [List.mem_cons, ofThree, later, List.not_mem_nil, or_self] at mem
      · simp only [List.mem_cons, ofFour, later, List.not_mem_nil, or_self] at mem

/-- A character below 128 is told by its byte. -/
theorem eq_of_mem_utf8EncodeChar {c d : Char} (ascii : d.val.toNat < 128)
    (mem : d.toUInt8 ∈ String.utf8EncodeChar c) : c = d := by
  have size : d.toUInt8.toNat = d.val.toNat := toNat_ofNat_of_ascii ascii
  have same := (utf8EncodeChar_eq_of_mem mem (size ▸ ascii)).2
  exact Char.ext (UInt32.toNat_inj.mp (same.trans size))

/-- Where the byte of a character below 128 stands, that character stands. -/
theorem exists_of_getElem?_bytes {d : Char} (ascii : d.val.toNat < 128) {text : List Char}
    {start : Nat} (here : (bytes text)[start]? = some d.toUInt8) :
    ∃ front rest, text = front ++ d :: rest ∧ byteLength front = start := by
  induction text generalizing start with
  | nil => simp at here
  | cons c text ih =>
    have size := String.length_utf8EncodeChar c
    rw [bytes_cons] at here
    by_cases inside : start < (String.utf8EncodeChar c).length
    · rw [List.getElem?_append_left inside] at here
      have byte : d.toUInt8.toNat < 128 := by
        rwa [show d.toUInt8.toNat = d.val.toNat from toNat_ofNat_of_ascii ascii]
      have mem := List.mem_of_getElem? here
      rw [(utf8EncodeChar_eq_of_mem mem byte).1, List.length_singleton, Nat.lt_one_iff] at inside
      exact ⟨[], text, by rw [eq_of_mem_utf8EncodeChar ascii mem, List.nil_append], inside.symm⟩
    · rw [List.getElem?_append_right (Nat.le_of_not_lt inside)] at here
      obtain ⟨front, rest, rfl, offset⟩ := ih here
      refine ⟨c :: front, rest, rfl, ?_⟩
      rw [byteLength, offset]
      omega

theorem bytes_append (front rest : List Char) : bytes (front ++ rest) = bytes front ++ bytes rest :=
  List.flatMap_append

theorem drop_bytes_byteLength (front rest : List Char) :
    (bytes (front ++ rest)).drop (byteLength front) = bytes rest := by
  rw [bytes_append, ← length_bytes, List.drop_left]

end ChangeImpact.Text
