import ChangeImpact.Text.Blank

/-!
# Cutting a text at characters and words

Splitting at every occurrence of a character, cutting at the first occurrence of a word, and taking
a word off the front.
-/

namespace ChangeImpact.Text

/-- The pieces between the occurrences of `separator`; a text without one is a single piece. -/
def splitChars (separator : Char) : List Char → List (List Char)
  | [] => [[]]
  | c :: rest =>
    if c = separator then [] :: splitChars separator rest
    else
      match splitChars separator rest with
      | [] => [[c]]
      | piece :: pieces => (c :: piece) :: pieces

def dropWord? : List Char → List Char → Option (List Char)
  | [], text => some text
  | _ :: _, [] => none
  | w :: word, c :: rest => if w = c then dropWord? word rest else none

def startsWithWord (word text : List Char) : Bool :=
  (dropWord? word text).isSome

theorem dropWord?_append (word rest : List Char) : dropWord? word (word ++ rest) = some rest := by
  induction word with
  | nil => rfl
  | cons w word ih => simp [dropWord?, ih]

theorem eq_append_of_dropWord? {word text rest : List Char} (h : dropWord? word text = some rest) :
    text = word ++ rest := by
  induction word generalizing text with
  | nil => simpa [dropWord?] using h
  | cons w word ih =>
    cases text with
    | nil => simp [dropWord?] at h
    | cons c text =>
      by_cases same : w = c
      · simp only [dropWord?, same, if_true] at h
        simp [same, ih h]
      · simp [dropWord?, same] at h

/-- The text without the copies of `word` that it begins with; an empty word removes nothing. -/
def dropWords (word : List Char) : Nat → List Char → List Char
  | 0, text => text
  | n + 1, text =>
    if word.isEmpty then text
    else
      match dropWord? word text with
      | some rest => dropWords word n rest
      | none => text

/-- The text before and after the first occurrence of `word`. -/
def cutAtWord? (word : List Char) : List Char → Option (List Char × List Char)
  | [] => if word.isEmpty then some ([], []) else none
  | c :: text =>
    match dropWord? word (c :: text) with
    | some rest => some ([], rest)
    | none => (cutAtWord? word text).map fun (front, rest) => (c :: front, rest)

def cutAt? (p : Char → Bool) : List Char → Option (List Char × List Char)
  | [] => none
  | c :: text =>
    if p c then some ([], text) else (cutAt? p text).map fun (front, rest) => (c :: front, rest)

def cutAtLast? (separator : Char) (text : List Char) : Option (List Char × List Char) :=
  (cutAt? (· == separator) text.reverse).map fun (rest, front) => (front.reverse, rest.reverse)

def splitString (separator : Char) (text : String) : List String :=
  (splitChars separator text.toList).map String.ofList

def joinWith (separator : String) (pieces : List String) : String :=
  separator.intercalate pieces

end ChangeImpact.Text
