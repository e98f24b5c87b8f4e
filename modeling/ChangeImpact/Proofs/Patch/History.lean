import ChangeImpact.Patch.Engine

/-!
# The history within its limit

Patches are recorded one at a time, and each makes room for itself by evicting the oldest ones. A
history that is within the limit stays within it, and is at any time the last part of all that was
ever recorded.
-/

namespace ChangeImpact.PatchEngine

/-- The last elements of a list, at most `count` of them. -/
def takeLast (count : Nat) (xs : List α) : List α :=
  xs.drop (xs.length - count)

theorem exists_append_takeLast (count : Nat) (xs : List α) :
    ∃ front, xs = front ++ takeLast count xs :=
  ⟨_, (List.take_append_drop (xs.length - count) xs).symm⟩

theorem length_takeLast_le (count : Nat) (xs : List α) : (takeLast count xs).length ≤ count := by
  rw [takeLast, List.length_drop]
  omega

theorem takeLast_of_length_le {count : Nat} {xs : List α} (h : xs.length ≤ count) :
    takeLast count xs = xs := by
  simp [takeLast, Nat.sub_eq_zero_of_le h]

/-- What is forgotten early would be forgotten later. -/
theorem takeLast_takeLast_append (count : Nat) (xs ys : List α) :
    takeLast count (takeLast count xs ++ ys) = takeLast count (xs ++ ys) := by
  by_cases short : xs.length ≤ count
  · rw [takeLast_of_length_le short]
  · have cut : (xs ++ ys).drop (xs.length - count) = takeLast count xs ++ ys := by
      rw [List.drop_append_of_le_length (by omega), takeLast]
    have rest : (takeLast count xs ++ ys).length - count = ys.length := by
      simp only [takeLast, List.length_append, List.length_drop]
      omega
    rw [takeLast, rest, ← cut, List.drop_drop, takeLast, List.length_append]
    congr 1
    omega

/-! ## One patch -/

theorem evict_eq_drop (limit : Nat) (history : List Patch) :
    evict limit history = history.drop (history.length + 1 - limit) := by
  induction history with
  | nil => simp [evict]
  | cons oldest rest ih =>
    rw [evict, List.length_cons]
    split
    · next full =>
      rw [ih, show rest.length + 1 + 1 - limit = rest.length + 1 - limit + 1 by omega,
        List.drop_succ_cons]
    · next room =>
      rw [show rest.length + 1 + 1 - limit = 0 by omega, List.drop_zero]

variable (engine : PatchEngine)

theorem recordOne_of_pos (patch : Patch) (pos : 0 < engine.historyLimit) :
    engine.recordOne patch = { engine with
      history := takeLast engine.historyLimit (engine.history ++ [patch]) } := by
  have kept : evict engine.historyLimit engine.history ++ [patch] =
      takeLast engine.historyLimit (engine.history ++ [patch]) := by
    rw [takeLast, List.length_append, List.length_singleton,
      List.drop_append_of_le_length (by omega), evict_eq_drop]
  rw [recordOne, if_neg (Nat.ne_of_gt pos), kept]

theorem recordOne_of_fits (patch : Patch) (fits : engine.history.length ≤ engine.historyLimit) :
    engine.recordOne patch = { engine with
      history := takeLast engine.historyLimit (engine.history ++ [patch]) } := by
  rcases Nat.eq_zero_or_pos engine.historyLimit with none | pos
  · have empty : engine.history = [] := by simpa [none] using fits
    have nothing : takeLast engine.historyLimit (engine.history ++ [patch]) = engine.history := by
      simp [takeLast, none, empty]
    rw [recordOne, if_pos none, nothing]
  · exact recordOne_of_pos engine patch pos

/-! ## All patches of a call -/

theorem record_cons (patch : Patch) (patches : List Patch) :
    engine.record (patch :: patches) = (engine.recordOne patch).record patches := rfl

theorem record_of_limit_zero (patches : List Patch) (none : engine.historyLimit = 0) :
    engine.record patches = engine := by
  induction patches with
  | nil => rfl
  | cons patch patches ih => rw [record_cons, recordOne, if_pos none, ih]

theorem record_of_fits {engine : PatchEngine} (patches : List Patch)
    (fits : engine.history.length ≤ engine.historyLimit) :
    engine.record patches = { engine with
      history := takeLast engine.historyLimit (engine.history ++ patches) } := by
  induction patches generalizing engine with
  | nil => rw [List.append_nil, takeLast_of_length_le fits]; rfl
  | cons patch patches ih =>
    rw [record_cons, recordOne_of_fits engine patch fits, ih (length_takeLast_le _ _)]
    simp only [takeLast_takeLast_append, List.append_assoc, List.singleton_append]

/-- The first patch recorded brings a history within its limit, whatever it was before. -/
theorem record_eq (patches : List Patch) :
    engine.record patches = { engine with
      history := if engine.historyLimit = 0 ∨ patches = [] then engine.history
        else takeLast engine.historyLimit (engine.history ++ patches) } := by
  rcases Nat.eq_zero_or_pos engine.historyLimit with none | pos
  · rw [record_of_limit_zero engine patches none, if_pos (.inl none)]
  · cases patches with
    | nil => rw [if_pos (.inr rfl)]; rfl
    | cons patch patches =>
      rw [record_cons, recordOne_of_pos engine patch pos, record_of_fits _ (length_takeLast_le _ _),
        if_neg (by simp [Nat.ne_of_gt pos])]
      simp only [takeLast_takeLast_append, List.append_assoc, List.singleton_append]

theorem driftWindow_record (patches : List Patch) :
    (engine.record patches).driftWindow = engine.driftWindow := by
  rw [record_eq]

theorem mem_history_record {engine : PatchEngine} {entry : Patch} {patches : List Patch}
    (mem : entry ∈ (engine.record patches).history) : entry ∈ engine.history ∨ entry ∈ patches := by
  rw [record_eq] at mem
  dsimp only at mem
  split at mem
  · exact .inl mem
  · exact List.mem_append.mp (List.mem_of_mem_drop mem)

theorem apply_engine_of_fits {σ : Type} [SourceStore σ] {engine : PatchEngine}
    (fits : engine.history.length ≤ engine.historyLimit) (store : σ) (patches : List Patch) :
    (engine.apply store patches).1 = { engine with
      history := takeLast engine.historyLimit
        (engine.history ++ (engine.apply store patches).2.2.patchesApplied) } :=
  record_of_fits _ fits

end ChangeImpact.PatchEngine
