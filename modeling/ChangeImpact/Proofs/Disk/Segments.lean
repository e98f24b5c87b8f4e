import ChangeImpact.Path
import ChangeImpact.Proofs.Text.Pieces

/-!
# Segments of paths

A path is its segments joined by slashes. Two paths with a slash between them have the segments of
both, and a file of a directory has the segments of the directory and its own.
-/

namespace ChangeImpact

namespace Path

theorem segments_append (front back : String) :
    segments (front ++ "/" ++ back) = segments front ++ segments back := by
  have text : (front ++ "/" ++ back).toList = front.toList ++ '/' :: back.toList := by simp
  rw [segments, segments, segments, Text.splitString, text, Text.splitChars_append, List.map_append]
  rfl

theorem segments_ne_nil (path : String) : segments path ≠ [] := by
  rw [segments, Text.splitString, ne_eq, List.map_eq_nil_iff]
  exact Text.splitChars_ne_nil _ _

theorem joinWith_segments (path : String) : Text.joinWith "/" (segments path) = path := by
  refine String.toList_inj.mp ?_
  have strings : (Text.splitChars '/' path.toList).map (String.toList ∘ String.ofList) =
      Text.splitChars '/' path.toList := by
    simp [Function.comp_def]
  rw [Text.joinWith, String.toList_intercalate, segments, Text.splitString, List.map_map, strings]
  exact Text.intercalate_splitChars _ _

theorem slash_not_mem_of_mem_segments {path segment : String} (mem : segment ∈ segments path) :
    '/' ∉ segment.toList := by
  obtain ⟨piece, inside, rfl⟩ := List.mem_map.mp mem
  rw [String.toList_ofList]
  exact Text.not_mem_of_mem_splitChars inside

theorem segments_of_slash_not_mem {name : String} (bare : '/' ∉ name.toList) :
    segments name = [name] := by
  rw [segments, Text.splitString, Text.splitChars_of_not_mem bare, List.map_singleton,
    String.ofList_toList]

theorem segments_joinWith {names : List String} (some : names ≠ [])
    (bare : ∀ name ∈ names, '/' ∉ name.toList) : segments (Text.joinWith "/" names) = names := by
  have pieces : Text.splitChars '/' (['/'].intercalate (names.map String.toList)) =
      names.map String.toList :=
    Text.splitChars_intercalate (mt List.map_eq_nil_iff.mp some) (List.forall_mem_map.mpr bare)
  rw [segments, Text.splitString, Text.joinWith, String.toList_intercalate]
  exact (congrArg (List.map String.ofList) pieces).trans (by simp [Function.comp_def])

theorem isCanonical_joinWith {names : List String} (some : names ≠ [])
    (named : ∀ name ∈ names, isName name = true ∧ '/' ∉ name.toList) :
    IsCanonical (Text.joinWith "/" names) := by
  have whole := segments_joinWith some fun name mem => (named name mem).2
  refine ⟨fun empty => ?_, fun name mem => (named name (whole ▸ mem)).1⟩
  rw [empty] at whole
  have bare := (named "" (whole ▸ List.mem_singleton_self "")).1
  exact absurd bare (by decide)

/-- A relative path below a directory, with one slash between the two. -/
theorem join_cases (directory : String) {path : String} (relative : path.toList.head? ≠ some '/') :
    directory = "" ∧ join directory path = path ∨
      ∃ front, (directory = front ∨ directory = front ++ "/") ∧
        join directory path = front ++ "/" ++ path := by
  unfold join
  split
  · next rest begins => exact absurd (congrArg List.head? begins) relative
  · split
    · next empty => exact .inl ⟨by simpa using empty, rfl⟩
    · next slash =>
      obtain ⟨front, shape⟩ := List.getLast?_eq_some_iff.mp slash
      have text : directory = String.ofList front ++ "/" := String.toList_inj.mp (by simp [shape])
      exact .inr ⟨String.ofList front, .inr text, by rw [text]⟩
    · exact .inr ⟨directory, .inl rfl, rfl⟩

theorem withoutFinalSlashes_eq {path : String} (ends : path.toList.getLast? ≠ some '/') :
    withoutFinalSlashes path = path := by
  have whole : path.toList.reverse.dropWhile (· == '/') = path.toList.reverse := by
    cases shape : path.toList.reverse with
    | nil => rfl
    | cons c rest =>
      have last : path.toList.getLast? = some c := by
        rw [← List.head?_reverse, shape, List.head?_cons]
      have differs : (c == '/') = false := by
        simpa using fun same : c = '/' => ends (same ▸ last)
      simp [differs]
  unfold withoutFinalSlashes
  rw [whole]
  split
  · next empty =>
    have none : path = "" := by simpa using empty
    simp [none]
  · simp

theorem segments_slash (front : String) : segments (front ++ "/") = segments front ++ [""] := by
  have split := segments_append front ""
  rwa [String.append_empty] at split

theorem segments_of_getLast? {path : String} (ends : path.toList.getLast? = some '/') :
    ∃ front, segments path = segments front ++ [""] := by
  obtain ⟨front, shape⟩ := List.getLast?_eq_some_iff.mp ends
  have text : path = String.ofList front ++ "/" := String.toList_inj.mp (by simp [shape])
  exact ⟨String.ofList front, text ▸ segments_slash _⟩

structure IsEntry (name : String) : Prop where
  whole : segments name = [name]
  isName : isName name = true
  short : name.utf8ByteSize ≤ 255

theorem IsEntry.relative {name : String} (entry : IsEntry name) :
    name.toList.head? ≠ some '/' := by
  intro begins
  obtain ⟨rest, shape⟩ := List.head?_eq_some_iff.mp begins
  have text : name = "" ++ "/" ++ String.ofList rest := String.toList_inj.mp (by simp [shape])
  have whole := entry.whole
  rw [text, segments_append] at whole
  obtain ⟨-, none⟩ := List.cons.inj whole
  exact segments_ne_nil _ none

/-! ## The directory of a file -/

def directories (path : String) : List String :=
  (segments path).dropLast

/-- The part of a path before its last slash has the segments of the directories. -/
theorem parent?_cases (path : String) :
    parent? path = none ∧ directories path = [] ∨
      ∃ front, parent? path = some front ∧ directories path = segments front := by
  by_cases slash : '/' ∈ path.toList
  · obtain ⟨back, front, shape, absent⟩ :=
      List.eq_append_cons_of_mem (List.mem_reverse.mpr slash)
    have text : path = String.ofList front.reverse ++ "/" ++ String.ofList back.reverse := by
      refine String.toList_inj.mp ?_
      rw [← List.reverse_reverse path.toList, shape]
      simp
    have last : '/' ∉ (String.ofList back.reverse).toList := by simpa using absent
    refine .inr ⟨String.ofList front.reverse, ?_, ?_⟩
    · rw [parent?, ← List.reverse_reverse path.toList, shape, List.reverse_append,
        List.reverse_cons, List.append_assoc, List.singleton_append,
        Text.cutAtLast?_append (mt List.mem_reverse.mp absent)]
      rfl
    · rw [directories, text, segments_append, segments_of_slash_not_mem last, List.dropLast_concat]
  · refine .inl ⟨?_, ?_⟩
    · rw [parent?, Text.cutAtLast?_of_not_mem slash]
      rfl
    · rw [directories, segments_of_slash_not_mem slash]
      rfl

end Path

end ChangeImpact
