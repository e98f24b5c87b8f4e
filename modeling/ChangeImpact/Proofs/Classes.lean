import Mathlib.Data.List.Nodup
import Mathlib.Data.List.Perm.Basic

/-!
# Lists by classes

A list falls into the classes of a key. Listing the classes one after another gives the elements of
the list, each as often as it was there. Where keys are distinct, an element is found by its key,
whatever the order.
-/

namespace ChangeImpact

theorem flatMap_filter_key_perm [BEq κ] [LawfulBEq κ] {key : α → κ} {classes : List κ}
    (nodup : classes.Nodup) {elements : List α} (all : ∀ x ∈ elements, key x ∈ classes) :
    (classes.flatMap fun k => elements.filter (key · == k)).Perm elements := by
  induction classes generalizing elements with
  | nil =>
    have none : elements = [] := List.eq_nil_iff_forall_not_mem.mpr fun x mem => by
      simpa using all x mem
    simp [none]
  | cons k rest ih =>
    obtain ⟨fresh, nodup⟩ := List.nodup_cons.mp nodup
    have others : ∀ x ∈ elements.filter (!key · == k), key x ∈ rest := by
      intro x mem
      obtain ⟨listed, differ⟩ := List.mem_filter.mp mem
      exact (List.mem_cons.mp (all x listed)).resolve_left (by simpa using differ)
    have same : (rest.flatMap fun other => elements.filter (key · == other)) =
        rest.flatMap fun other => (elements.filter (!key · == k)).filter (key · == other) := by
      refine List.flatMap_congr fun other mem => ?_
      rw [List.filter_filter]
      refine List.filter_congr fun x _ => ?_
      have differ : other ≠ k := fun same => fresh (same ▸ mem)
      by_cases hit : key x = other <;> simp [hit, differ]
    rw [List.flatMap_cons, same]
    exact ((ih nodup others).append_left _).trans (List.filter_append_perm _ elements)

/-- Of parts of which all but one are empty, this one is the whole. -/
theorem flatMap_eq_of_unique {keys : List κ} (nodup : keys.Nodup) {part : κ → List α} {k : κ}
    (mem : k ∈ keys) (others : ∀ other ∈ keys, other ≠ k → part other = []) :
    keys.flatMap part = part k := by
  obtain ⟨front, rest, rfl⟩ := List.append_of_mem mem
  rw [List.nodup_append, List.nodup_cons] at nodup
  have before : front.flatMap part = [] := by
    refine List.flatMap_eq_nil_iff.mpr fun other listed => ?_
    exact others other (List.mem_append_left _ listed) (nodup.2.2 other listed k List.mem_cons_self)
  have after : rest.flatMap part = [] := by
    refine List.flatMap_eq_nil_iff.mpr fun other listed => ?_
    refine others other (List.mem_append_right _ (List.mem_cons_of_mem _ listed)) ?_
    rintro rfl
    exact nodup.2.1.1 listed
  rw [List.flatMap_append, List.flatMap_cons, before, after, List.nil_append, List.append_nil]

/-- Where one element at most is looked for, the order of the list does not matter. -/
theorem find?_eq_of_perm {elements others : List α} (perm : others.Perm elements) {p : α → Bool}
    (unique : ∀ a ∈ elements, ∀ b ∈ elements, p a → p b → a = b) :
    others.find? p = elements.find? p := by
  cases first : elements.find? p with
  | none =>
    rw [List.find?_eq_none] at first ⊢
    exact fun a mem => first a (perm.mem_iff.mp mem)
  | some a =>
    have memA := List.mem_of_find?_eq_some first
    have holdsA := List.find?_some first
    cases second : others.find? p with
    | none => exact (List.find?_eq_none.mp second a (perm.mem_iff.mpr memA) holdsA).elim
    | some b =>
      have memB := perm.mem_iff.mp (List.mem_of_find?_eq_some second)
      rw [unique b memB a memA (List.find?_some second) holdsA]

theorem find?_key_of_mem [BEq κ] [LawfulBEq κ] {key : α → κ} {elements : List α}
    (distinct : (elements.map key).Nodup) {x : α} (mem : x ∈ elements) :
    elements.find? (key · == key x) = some x := by
  have found : (elements.find? (key · == key x)).isSome = true :=
    List.find?_isSome.mpr ⟨x, mem, beq_self_eq_true _⟩
  obtain ⟨y, first⟩ := Option.isSome_iff_exists.mp found
  have same : key y = key x := by simpa using List.find?_some first
  rw [first, List.inj_on_of_nodup_map distinct (List.mem_of_find?_eq_some first) mem same]

/-- Where each key is one of a value with this key, the keys of the values are the keys. -/
theorem map_key_filterMap {key : α → κ} {value? : κ → Option α} {keys : List κ}
    (each : ∀ k ∈ keys, ∃ x, value? k = some x ∧ key x = k) :
    (keys.filterMap value?).map key = keys := by
  induction keys with
  | nil => rfl
  | cons k rest ih =>
    obtain ⟨x, found, same⟩ := each k List.mem_cons_self
    rw [List.filterMap_cons_some found, List.map_cons, same,
      ih fun other mem => each other (List.mem_cons_of_mem _ mem)]

end ChangeImpact
