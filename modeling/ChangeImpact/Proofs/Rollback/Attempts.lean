import ChangeImpact.Proofs.Patch.Accounting
import ChangeImpact.Proofs.Rollback.Step
import Mathlib.Data.List.Forall2
import Mathlib.Data.List.Induction

/-!
# The attempts of a rollback

A rollback tries every selected entry once, the newest first, whatever the store refuses. An entry
whose inverse was applied is taken out of the history, and no other entry is.
-/

namespace ChangeImpact

namespace PatchEngine

open PatchApplyResult (Accounts)

/-- An attempt to undo an entry, its place in the history, and what was reported of it. -/
structure Attempt where
  place : Nat
  entry : Patch
  report : PatchApplyResult

def Attempt.undone (attempt : Attempt) : Bool :=
  !attempt.report.patchesApplied.isEmpty

/-! ## What is left of a history -/

/-- An entry as it is left: only its line may have been counted anew, if a deletion in its file was
undone. -/
def LeftBy (tried : List Attempt) (now old : Patch) : Prop :=
  ∃ line, now = { old with line } ∧ (line = old.line ∨
    ∃ attempt ∈ tried, attempt.undone = true ∧ attempt.entry.isDeletion = true ∧
      attempt.entry.path = old.path)

theorem LeftBy.refl (tried : List Attempt) (entry : Patch) : LeftBy tried entry entry :=
  ⟨entry.line, rfl, .inl rfl⟩

theorem LeftBy.mono {tried more : List Attempt} {now old : Patch} (left : LeftBy tried now old)
    (among : ∀ attempt ∈ tried, attempt ∈ more) : LeftBy more now old := by
  obtain ⟨line, same, kept | ⟨attempt, mem, moved⟩⟩ := left
  · exact ⟨line, same, .inl kept⟩
  · exact ⟨line, same, .inr ⟨attempt, among attempt mem, moved⟩⟩

theorem LeftBy.mono_before {tried more : List Attempt} {now old : Patch} {place : Nat}
    (left : LeftBy (tried.filter (·.place < place)) now old)
    (among : ∀ attempt ∈ tried, attempt ∈ more) :
    LeftBy (more.filter (·.place < place)) now old := by
  refine left.mono fun attempt mem => ?_
  obtain ⟨listed, before⟩ := List.mem_filter.mp mem
  exact List.mem_filter.mpr ⟨among attempt listed, before⟩

theorem LeftBy.trans {tried : List Attempt} {now middle old : Patch}
    (late : LeftBy tried now middle) (early : LeftBy tried middle old) : LeftBy tried now old := by
  obtain ⟨before, rfl, early⟩ := early
  obtain ⟨line, rfl, kept | moved⟩ := late
  · exact ⟨line, rfl, kept ▸ early⟩
  · exact ⟨line, rfl, .inr moved⟩

theorem forall₂_leftBy_trans {tried : List Attempt} {now middle old : List Patch}
    (late : List.Forall₂ (LeftBy tried) now middle)
    (early : List.Forall₂ (LeftBy tried) middle old) : List.Forall₂ (LeftBy tried) now old := by
  induction late generalizing old with
  | nil => exact early
  | cons head _ ih =>
    cases early with
    | cons first rest => exact .cons (head.trans first) (ih rest)

theorem forall₂_shiftAfter {tried : List Attempt} {path : String}
    (moved : ∀ (entry : Patch) line, entry.path = path → LeftBy tried { entry with line } entry)
    (restored : Nat) (later : List Patch) :
    List.Forall₂ (LeftBy tried) (shiftAfter path restored later) later := by
  induction later generalizing restored with
  | nil => exact .nil
  | cons entry rest ih =>
    unfold shiftAfter
    split
    · next same =>
      refine .cons ?_ (ih _)
      split
      · exact moved entry _ (beq_iff_eq.mp same)
      · exact .refl tried entry
    · exact .cons (.refl tried entry) (ih _)

theorem forall₂_rebase {attempt : Attempt} {tried : List Attempt} (mem : attempt ∈ tried)
    (undone : attempt.undone = true) (later : List Patch) :
    List.Forall₂ (LeftBy tried) (rebase attempt.entry later) later := by
  unfold rebase
  split
  · next deletion =>
    refine forall₂_shiftAfter ?_ _ later
    intro entry line same
    exact ⟨line, rfl, .inr ⟨attempt, mem, undone, deletion, same.symm⟩⟩
  · exact List.forall₂_same.mpr fun entry _ => .refl tried entry

/-- The entries of a history that no attempt has undone, each with its place. -/
def remaining (history : List Patch) (tried : List Attempt) : List (Patch × Nat) :=
  history.zipIdx.filter fun old =>
    !tried.any fun attempt => attempt.undone && attempt.place == old.2

theorem remaining_keep {front : List Patch} (entry : Patch) {first tried : List Attempt}
    (failed : ∀ attempt ∈ first, attempt.undone = false)
    (earlier : ∀ attempt ∈ tried, attempt.place < front.length) :
    remaining (front ++ [entry]) (first ++ tried) =
      remaining front tried ++ [(entry, front.length)] := by
  have unaffected : (first.any fun attempt => attempt.undone && attempt.place == front.length) =
      false := by
    simpa using fun attempt mem undone => by simp [failed attempt mem] at undone
  have others : (tried.any fun attempt => attempt.undone && attempt.place == front.length) =
      false := by
    simpa using fun attempt mem _ => Nat.ne_of_lt (earlier attempt mem)
  have same : (front.zipIdx.filter fun old =>
        !(first ++ tried).any fun attempt => attempt.undone && attempt.place == old.2) =
      remaining front tried := by
    refine List.filter_congr fun old _ => ?_
    have none : (first.any fun attempt => attempt.undone && attempt.place == old.2) = false := by
      simpa using fun attempt mem undone => by simp [failed attempt mem] at undone
    rw [List.any_append, none, Bool.false_or]
  rw [remaining, List.zipIdx_append, List.filter_append, same]
  simp [unaffected, others]

theorem remaining_remove {front : List Patch} (entry : Patch) {attempt : Attempt}
    (undone : attempt.undone = true) (place : attempt.place = front.length)
    (tried : List Attempt) :
    remaining (front ++ [entry]) (attempt :: tried) = remaining front tried := by
  have same : (front.zipIdx.filter fun old =>
        !(attempt :: tried).any fun attempt => attempt.undone && attempt.place == old.2) =
      remaining front tried := by
    refine List.filter_congr fun old mem => ?_
    have differ : attempt.place ≠ old.2 := by
      have bound := (List.getElem?_eq_some_iff.mp (List.mem_zipIdx_iff_getElem?.mp mem)).choose
      omega
    simp [differ]
  rw [remaining, List.zipIdx_append, List.filter_append, same]
  simp [undone, place]

/-- How a rollback ends for the entries in `front`, and for those in `back`, which it has come past:
the attempts that were made, and the history that is left. -/
structure Ends (chosen : String → Bool) (front back : List Patch) (tried : List Attempt)
    (history : List Patch) : Prop where
  inOrder : tried.map (fun attempt => (attempt.entry, attempt.place)) =
    (front.zipIdx.filter fun old => chosen old.1.id).reverse
  left : ∃ kept rest, history = kept ++ rest ∧
    List.Forall₂ (fun now old => LeftBy (tried.filter (·.place < old.2)) now old.1) kept
      (remaining front tried) ∧
    List.Forall₂ (LeftBy tried) rest back

variable {chosen : String → Bool} {front back : List Patch} {entry : Patch}
  {tried : List Attempt} {history : List Patch}

theorem Ends.place_lt (ends : Ends chosen front back tried history) {attempt : Attempt}
    (mem : attempt ∈ tried) : attempt.place < front.length := by
  have listed := List.mem_map_of_mem (f := fun attempt => (attempt.entry, attempt.place)) mem
  rw [ends.inOrder, List.mem_reverse, List.mem_filter, List.mem_zipIdx_iff_getElem?] at listed
  exact (List.getElem?_eq_some_iff.mp listed.1).choose

theorem Ends.nil (chosen : String → Bool) (back : List Patch) : Ends chosen [] back [] back :=
  ⟨rfl, [], back, rfl, .nil, List.forall₂_same.mpr fun entry _ => .refl [] entry⟩

theorem Ends.keep (ends : Ends chosen front (entry :: back) tried history) {first : List Attempt}
    (own : first.map (fun attempt => (attempt.entry, attempt.place)) =
      if chosen entry.id then [(entry, front.length)] else [])
    (failed : ∀ attempt ∈ first, attempt.undone = false) :
    Ends chosen (front ++ [entry]) back (first ++ tried) history := by
  have among : ∀ attempt ∈ tried, attempt ∈ first ++ tried :=
    fun attempt mem => List.mem_append_right _ mem
  obtain ⟨kept, rest, rfl, keptLeft, restLeft⟩ := ends.left
  refine ⟨?_, ?_⟩
  · rw [List.map_append, own, ends.inOrder, List.zipIdx_append, List.filter_append]
    cases selected : chosen entry.id <;> simp [selected]
  · -- Of what is left of the back, the first is the entry; it now belongs to the front.
    cases restLeft with
    | cons here restLeft =>
      rename_i now rest
      refine ⟨kept ++ [now], rest, by simp, ?_, restLeft.imp fun _ _ left => left.mono among⟩
      rw [remaining_keep entry failed fun _ mem => ends.place_lt mem]
      refine List.rel_append (keptLeft.imp fun _ _ left => left.mono_before among) (.cons ?_ .nil)
      refine here.mono fun attempt mem => List.mem_filter.mpr ⟨among attempt mem, ?_⟩
      exact decide_eq_true (ends.place_lt mem)

theorem Ends.remove {attempt : Attempt}
    (ends : Ends chosen front (rebase attempt.entry back) tried history)
    (selected : chosen attempt.entry.id = true) (undone : attempt.undone = true)
    (place : attempt.place = front.length) :
    Ends chosen (front ++ [attempt.entry]) back (attempt :: tried) history := by
  have among : ∀ other ∈ tried, other ∈ attempt :: tried :=
    fun other mem => List.mem_cons_of_mem _ mem
  obtain ⟨kept, rest, rfl, keptLeft, restLeft⟩ := ends.left
  refine ⟨?_, kept, rest, rfl, ?_, ?_⟩
  · rw [List.map_cons, ends.inOrder, List.zipIdx_append, List.filter_append]
    simp [selected, place]
  · rw [remaining_remove attempt.entry undone place]
    exact keptLeft.imp fun _ _ left => left.mono_before among
  · -- The entries behind were counted anew here, and may be again by the undos that follow.
    have late := restLeft.imp fun _ _ left => left.mono among
    exact forall₂_leftBy_trans late (forall₂_rebase List.mem_cons_self undone back)

/-! ## Which entry is next -/

section

variable {σ : Type} {run : RollbackRun σ}

/-- A rollback between two entries: of those in `back`, which it has come past, every selected one
that is left is skipped, and those in `front` are as they were. -/
structure Settled (chosen : String → Bool) (front : List Patch) (run : RollbackRun σ)
    (back : List Patch) : Prop where
  history : run.history = front ++ back
  beyond : ∀ index ∈ run.skipped, front.length ≤ index
  passed : ∀ offset entry, back[offset]? = some entry → chosen entry.id = true →
    front.length + offset ∈ run.skipped

theorem latestIndex?_eq_length {skipped : List Nat} (free : front.length ∉ skipped)
    (others : ∀ offset other, back[offset]? = some other → other.id = entry.id →
      front.length + 1 + offset ∈ skipped) :
    latestIndex? (front ++ entry :: back) skipped entry.id = some front.length := by
  have behind : (back.zipIdx (front.length + 1)).reverse.find?
      (fun pair => pair.1.id == entry.id && !decide (pair.2 ∈ skipped)) = none := by
    rw [List.find?_eq_none]
    rintro ⟨other, index⟩ mem
    obtain ⟨low, place⟩ := List.mk_mem_zipIdx_iff_le_and_getElem?_sub.mp (List.mem_reverse.mp mem)
    intro hit
    simp only [Bool.and_eq_true, beq_iff_eq, Bool.not_eq_true', decide_eq_false_iff_not] at hit
    have left := others _ other place hit.1
    rw [Nat.add_sub_cancel' low] at left
    exact hit.2 left
  simp [latestIndex?, List.zipIdx_append, List.zipIdx_cons, behind, free]

theorem Settled.tries (settled : Settled chosen (front ++ [entry]) run back)
    (selected : chosen entry.id = true) : Tries run entry.id front entry back := by
  have history : run.history = front ++ entry :: back := by simp [settled.history]
  refine ⟨history, history ▸ latestIndex?_eq_length ?_ ?_⟩
  · intro skipped
    have beyond := settled.beyond _ skipped
    simp only [List.length_append, List.length_singleton] at beyond
    omega
  · intro offset other place same
    simpa using settled.passed offset other place (same ▸ selected)

theorem Settled.pass (settled : Settled chosen (front ++ [entry]) run back)
    {next : RollbackRun σ} (history : next.history = run.history)
    (kept : ∀ index ∈ run.skipped, index ∈ next.skipped)
    (added : ∀ index ∈ next.skipped, index = front.length ∨ index ∈ run.skipped)
    (skipped : chosen entry.id = true → front.length ∈ next.skipped) :
    Settled chosen front next (entry :: back) where
  history := by simp [history, settled.history]
  beyond index mem := by
    rcases added index mem with rfl | mem
    · exact Nat.le_refl _
    · have beyond := settled.beyond index mem
      simp only [List.length_append, List.length_singleton] at beyond
      omega
  passed offset other place selected := by
    cases offset with
    | zero =>
      obtain rfl : entry = other := by simpa using place
      exact skipped selected
    | succ offset =>
      have left := settled.passed offset other (by simpa using place) selected
      have same : front.length + (offset + 1) = (front ++ [entry]).length + offset := by
        simp only [List.length_append, List.length_singleton]
        omega
      exact same ▸ kept _ left

theorem Settled.remove (settled : Settled chosen (front ++ [entry]) run back)
    {next : RollbackRun σ} (history : next.history = front ++ rebase entry back)
    (skipped : next.skipped = run.skipped.map fun i => if front.length < i then i - 1 else i) :
    Settled chosen front next (rebase entry back) where
  history := history
  beyond index mem := by
    rw [skipped] at mem
    obtain ⟨before, listed, rfl⟩ := List.mem_map.mp mem
    have beyond := settled.beyond before listed
    simp only [List.length_append, List.length_singleton] at beyond
    split <;> omega
  passed offset moved place selected := by
    -- Counting anew keeps identifiers, so the entry was skipped one place further on.
    have ids : (back.map (·.id))[offset]? = some moved.id := by
      rw [← map_id_rebase entry back, List.getElem?_map, place, Option.map_some]
    rw [List.getElem?_map] at ids
    obtain ⟨other, there, same⟩ := Option.map_eq_some_iff.mp ids
    have left := settled.passed offset other there (by rwa [same])
    simp only [List.length_append, List.length_singleton] at left
    rw [skipped]
    refine List.mem_map.mpr ⟨_, left, ?_⟩
    rw [if_pos (by omega)]
    omega

end

/-! ## What is tried -/

variable {σ : Type} [SourceStore σ] {window : Nat} {run : RollbackRun σ}

def attempt? (window : Nat) (run : RollbackRun σ) (id : String) : Option Attempt :=
  match latestIndex? run.history run.skipped id with
  | none => none
  | some index =>
    run.history[index]?.map fun entry =>
      ⟨index, entry, (applyAll window .undo run.store
        [inverseNow entry (run.history.drop (index + 1))]).2⟩

def attempts (window : Nat) (run : RollbackRun σ) : List String → List Attempt
  | [] => []
  | id :: ids => (attempt? window run id).toList ++ attempts window (undoStep window run id) ids

theorem undoStep_withResult (window : Nat) (run : RollbackRun σ) (result : PatchApplyResult)
    (id : String) :
    undoStep window { run with result } id =
      { undoStep window run id with
        result := ((attempt? window run id).toList.map (·.report)).foldl .append result } := by
  cases latest : latestIndex? run.history run.skipped id with
  | none => simp [undoStep, attempt?, latest]
  | some index =>
    cases place : run.history[index]? with
    | none => simp [undoStep, attempt?, latest, place]
    | some entry =>
      simp only [undoStep, attempt?, latest, place, Option.map_some, Option.toList_some,
        List.map_cons, List.map_nil, List.foldl_cons, List.foldl_nil, inverseNow]
      split <;> rfl

/-- Neither what is tried nor what comes of it depends on the result so far. -/
theorem undoAll_withResult (window : Nat) (run : RollbackRun σ) (result : PatchApplyResult)
    (ids : List String) :
    attempts window { run with result } ids = attempts window run ids ∧
      undoAll window { run with result } ids =
        { undoAll window run ids with
          result := ((attempts window run ids).map (·.report)).foldl .append result } := by
  induction ids generalizing run result with
  | nil => exact ⟨rfl, rfl⟩
  | cons id ids ih =>
    have same : attempt? window { run with result } id = attempt? window run id := rfl
    have step := undoStep_withResult window run result id
    obtain ⟨tried, final⟩ := ih (undoStep window run id)
      (((attempt? window run id).toList.map (·.report)).foldl .append result)
    constructor
    · rw [attempts, attempts, same, step, tried]
    · rw [undoAll, List.foldl_cons, step]
      refine final.trans ?_
      rw [attempts, List.map_append, List.foldl_append]
      rfl

theorem attempt?_of_tries {id : String} (tries : Tries run id front entry back) (window : Nat) :
    attempt? window run id =
      some ⟨front.length, entry, (applyAll window .undo run.store [inverseNow entry back]).2⟩ := by
  simp only [attempt?, tries.latest, tries.getElem?_eq, Option.map_some, tries.drop_eq]

theorem Settled.undoStep (settled : Settled chosen (front ++ [entry]) run back)
    (selected : chosen entry.id = true) (window : Nat) :
    ∃ attempt, attempt? window run entry.id = some attempt ∧ attempt.place = front.length ∧
      attempt.entry = entry ∧
        Settled chosen front (undoStep window run entry.id)
          (if attempt.undone then rebase entry back else entry :: back) := by
  have tries := settled.tries selected
  refine ⟨_, attempt?_of_tries tries window, rfl, rfl, ?_⟩
  rw [undoStep_of_tries tries]
  generalize applyAll window .undo run.store [inverseNow entry back] = outcome
  dsimp only [Attempt.undone]
  by_cases nothing : outcome.2.patchesApplied.isEmpty = true
  · simp only [nothing, if_true, Bool.not_true, Bool.false_eq_true, if_false]
    exact settled.pass rfl (fun _ mem => List.mem_cons_of_mem _ mem)
      (fun _ mem => List.mem_cons.mp mem) fun _ => List.mem_cons_self
  · simp only [nothing, Bool.false_eq_true, if_false, Bool.not_false, if_true]
    exact settled.remove rfl rfl

/-- Undoing the selected entries of `front`, the newest first, tries each of them once. -/
theorem ends_undoAll (settled : Settled chosen front run back) (window : Nat) :
    let ids := ((front.filter fun entry => chosen entry.id).map (·.id)).reverse
    Ends chosen front back (attempts window run ids) (undoAll window run ids).history := by
  -- From the newest entry of `front` on. What stands behind it changes with every undo, so the
  -- induction is for every `back`.
  induction front using List.reverseRecOn generalizing run back with
  | nil =>
    have history : run.history = back := settled.history
    rw [← history]
    exact .nil chosen run.history
  | append_singleton front entry ih =>
    intro ids
    cases selected : chosen entry.id with
    | false =>
      have same : ids = ((front.filter fun entry => chosen entry.id).map (·.id)).reverse := by
        simp [ids, selected]
      have passed := settled.pass rfl (fun _ mem => mem) (fun _ mem => .inr mem)
        fun hit => by simp [selected] at hit
      have none : ([] : List Attempt).map (fun attempt => (attempt.entry, attempt.place)) =
          if chosen entry.id then [(entry, front.length)] else [] := by simp [selected]
      rw [same]
      exact (ih passed).keep none fun _ mem => absurd mem List.not_mem_nil
    | true =>
      have same : ids =
          entry.id :: ((front.filter fun entry => chosen entry.id).map (·.id)).reverse := by
        simp [ids, selected]
      obtain ⟨attempt, made, place, rfl, next⟩ := settled.undoStep selected window
      have ends := ih next
      have tried : ∀ rest, attempts window run (attempt.entry.id :: rest) =
          attempt :: attempts window (undoStep window run attempt.entry.id) rest := by
        intro rest
        rw [attempts, made]
        rfl
      rw [same, tried, undoAll, List.foldl_cons]
      cases undone : attempt.undone with
      | true =>
        rw [undone, if_pos rfl] at ends
        exact ends.remove selected undone place
      | false =>
        rw [undone, if_neg Bool.false_ne_true] at ends
        have one : [attempt].map (fun attempt => (attempt.entry, attempt.place)) =
            if chosen attempt.entry.id then [(attempt.entry, front.length)] else [] := by
          simp [selected, place]
        exact ends.keep one fun other mem => List.mem_singleton.mp mem ▸ undone

end PatchEngine

end ChangeImpact
