import ChangeImpact.Impact.Rule
import ChangeImpact.Proofs.Pattern.Place

/-!
# New text for a line

Renaming in a line and taking accesses out of it leave the blanks that the line begins with, and
bring in no blank characters that the line does not have.
-/

namespace ChangeImpact

namespace Text

/-- Without blank characters, as every identifier is. -/
def IsSolid (name : String) : Prop :=
  ∀ c ∈ name.toList, isBlank c = false

instance (name : String) : Decidable (IsSolid name) :=
  inferInstanceAs (Decidable (∀ c ∈ name.toList, _))

/-- A new text for a line that can take its place as it is: an empty line stays empty, an indented
one stays indented unless nothing is left of it, and no blanks but those of the line are in it. -/
structure Mends (line text : List Char) : Prop where
  nil : line = [] → text = []
  indented : text ≠ [] → leadingBlanks text = [] → leadingBlanks line = []
  blanks : ∀ c ∈ text, isBlank c = true → c ∈ line

theorem mends_of_head {line text : List Char} (nil : line = [] → text = [])
    (head : ∀ c ∈ line.head?, isBlank c = true → text.head? = some c)
    (blanks : ∀ c ∈ text, isBlank c = true → c ∈ line) : Mends line text where
  nil := nil
  indented _ none := by
    cases line with
    | nil => rfl
    | cons c rest =>
      cases blank : isBlank c with
      | false => simp [leadingBlanks, blank]
      | true =>
        have kept := head c rfl blank
        cases text with
        | nil => simp at kept
        | cons d text =>
          obtain rfl : d = c := by simpa using kept
          simp [leadingBlanks, blank] at none
  blanks := blanks

end Text

/-! ## Renaming -/

namespace Occurrence

variable {old new : List Char}

theorem mem_replaceAux {last : Option Char} {skip : Nat} {text : List Char} {c : Char}
    (mem : c ∈ replaceAux old new last skip text) : c ∈ text ∨ c ∈ new := by
  induction text generalizing last skip with
  | nil => simp [replaceAux] at mem
  | cons d rest ih =>
    have later : ∀ {last skip}, c ∈ replaceAux old new last skip rest → c ∈ d :: rest ∨ c ∈ new :=
      fun mem => (ih mem).imp_left (List.mem_cons_of_mem d)
    unfold replaceAux at mem
    split at mem
    · exact later mem
    · split at mem
      · rcases List.mem_cons.mp mem with rfl | mem
        · exact .inl List.mem_cons_self
        · exact later mem
      · next after found =>
        rcases List.mem_append.mp mem with copied | mem
        · split at copied
          · left
            rw [Text.eq_append_of_dropWord? found]
            exact List.mem_append_left _ copied
          · exact .inr copied
        · exact later mem

theorem head?_replaceAux {c : Char} {rest : List Char} (apart : ∀ d ∈ old.head?, d ≠ c)
    (nonempty : old ≠ []) : (replaceAux old new none 0 (c :: rest)).head? = some c := by
  cases old with
  | nil => exact absurd rfl nonempty
  | cons d old =>
    have differ : d ≠ c := apart d rfl
    simp [replaceAux, Text.dropWord?, differ]

theorem mends_replace {old new : String} (oldSolid : Text.IsSolid old) (newSolid : Text.IsSolid new)
    (line : List Char) : Text.Mends line (replace old new line) := by
  unfold replace
  by_cases empty : old = ""
  · subst empty
    exact Text.mends_of_head id (fun _ head _ => head) fun _ mem _ => mem
  · rw [if_neg (by simpa using empty)]
    have nonempty : old.toList ≠ [] := by simpa using empty
    refine Text.mends_of_head ?_ ?_ ?_
    · rintro rfl
      rfl
    · intro c head blank
      obtain ⟨rest, rfl⟩ := List.head?_eq_some_iff.mp head
      refine head?_replaceAux ?_ nonempty
      rintro d first rfl
      have solid := oldSolid d (List.mem_of_head? first)
      simp [blank] at solid
    · intro c mem blank
      rcases mem_replaceAux mem with kept | brought
      · exact kept
      · have solid := newSolid c brought
        simp [blank] at solid

end Occurrence

/-! ## Taking accesses out -/

theorem Text.mem_of_mem_takeBytes {text : List Char} {n : Nat} {c : Char}
    (mem : c ∈ Text.takeBytes text n) : c ∈ text := by
  induction text generalizing n with
  | nil => simp [Text.takeBytes] at mem
  | cons d rest ih =>
    unfold Text.takeBytes at mem
    split at mem
    · simp at mem
    · rcases List.mem_cons.mp mem with rfl | mem
      · exact List.mem_cons_self
      · exact List.mem_cons_of_mem d (ih mem)

namespace FieldAccess

variable {field : String} {line : List Char}

theorem mem_without {place : Cursor} {found : List Match} {c : Char}
    (inside : ∀ one ∈ found, one.stop.rest <:+ line) (here : place.rest <:+ line)
    (mem : c ∈ without place found) : c ∈ line := by
  induction found generalizing place with
  | nil => exact here.subset mem
  | cons one later ih =>
    rcases List.mem_append.mp mem with kept | mem
    · exact here.subset (Text.mem_of_mem_takeBytes kept)
    · exact ih (fun other mem => inside other (List.mem_cons_of_mem _ mem))
        (inside one List.mem_cons_self) mem

theorem matchAt?_of_isBlank {c : Char} (blank : Text.isBlank c = true) (before : Option Char)
    (rest : List Char) (offset : Nat) :
    (pattern field).matchAt? ⟨before, c :: rest, offset⟩ = none := by
  have mark : c ≠ '?' := by rintro rfl; simp [Text.isBlank] at blank
  have dot : c ≠ '.' := by rintro rfl; simp [Text.isBlank] at blank
  simp [Pattern.matchAt?, pattern, Pattern.all, Pattern.opt, Pattern.char, Pattern.results, mark,
    dot]

theorem mends_strip? {stripped : List Char} (h : strip? field line = some stripped) :
    Text.Mends line stripped := by
  have inside : ∀ found ∈ find field line, found.stop.rest <:+ line := fun found mem =>
    (Pattern.of_mem_matchesFrom (List.mem_filter.mp mem).1).2
  have kept : ∀ c ∈ stripped, c ∈ line := by
    intro c mem
    unfold strip? at h
    split at h
    · simp at h
    · obtain rfl := Option.some.inj h
      exact mem_without inside (List.suffix_refl line) mem
  refine Text.mends_of_head ?_ ?_ fun c mem _ => kept c mem
  · rintro rfl
    exact List.eq_nil_iff_forall_not_mem.mpr fun c mem => absurd (kept c mem) List.not_mem_nil
  · -- No access begins with a blank, so the first one stands behind `c`, and `c` is copied.
    intro c head blank
    obtain ⟨rest, rfl⟩ := List.head?_eq_some_iff.mp head
    have behind : ∀ found ∈ find field (c :: rest), c.utf8Size ≤ found.start.offset := by
      intro found mem
      have listed := (List.mem_filter.mp mem).1
      rw [Pattern.allMatches, Pattern.matchesFrom, if_neg (by simp),
        matchAt?_of_isBlank blank] at listed
      simpa using (Pattern.of_mem_matchesFrom listed).1
    unfold strip? at h
    cases found : find field (c :: rest) with
    | nil => simp [found] at h
    | cons one later =>
      have start := behind one (by simp [found])
      have size : 0 < c.utf8Size := Char.utf8Size_pos c
      simp only [found, Option.some.injEq] at h
      rw [← h, without, Cursor.textTo, Nat.sub_zero, Text.takeBytes, if_neg (by omega)]
      rfl

end FieldAccess

end ChangeImpact
