import ChangeImpact.Proofs.Rollback.Step

/-!
# Undoing an entry where it wrote

The undo of an entry searches for the text that the entry wrote. It finds the line of the entry as
long as no later entry replaced or deleted this line. Otherwise it finds, and rewrites, any line
near enough that has the same text.
-/

namespace ChangeImpact

namespace PatchEngine

open Patch

/-! ## The line of an entry -/

theorem currentLine_of_follow? {entry : Patch} {later : List Patch} {line : Nat}
    (h : follow? entry.path entry.line later = some line) : currentLine entry later = line := by
  induction later generalizing entry with
  | nil => exact Option.some.inj h
  | cons patch rest ih =>
    by_cases same : patch.path = entry.path
    · simp only [follow?, same, if_true] at h
      by_cases here : patch.line = entry.line
      · simp [here] at h
      rw [if_neg here] at h
      by_cases above : patch.isDeletion = true ∧ patch.line < entry.line
      · rw [if_pos above] at h
        rw [currentLine_cons_of_pullsUp ⟨same, above⟩]
        exact @ih { entry with line := entry.line - 1 } h
      · rw [if_neg above] at h
        rw [currentLine_cons_of_not_pullsUp fun pullsUp => above pullsUp.2]
        exact ih h
    · simp only [follow?, same, if_false] at h
      rw [currentLine_cons_of_not_pullsUp fun pullsUp => same pullsUp.1]
      exact ih h

theorem one_le_currentLine {entry : Patch} {later : List Patch} (positive : 1 ≤ entry.line)
    (all : ∀ other ∈ later, other.path = entry.path → 1 ≤ other.line) :
    1 ≤ currentLine entry later := by
  induction later generalizing entry with
  | nil => exact positive
  | cons patch rest ih =>
    have tail : ∀ other ∈ rest, other.path = entry.path → 1 ≤ other.line := fun other mem =>
      all other (List.mem_cons_of_mem _ mem)
    by_cases above : PullsUp patch entry
    · have first := all patch List.mem_cons_self above.1
      have still : 1 ≤ entry.line - 1 := by have := above.2.2; omega
      rw [currentLine_cons_of_pullsUp above]
      exact @ih { entry with line := entry.line - 1 } still tail
    · rw [currentLine_cons_of_not_pullsUp above]
      exact ih positive tail

/-- Where the line that an entry wrote stands after the later entries, if none of them replaced or
deleted it; for a deletion, the line at which what it deleted is put back. -/
def ownLine? (entry : Patch) (later : List Patch) : Option Nat :=
  if entry.isDeletion then some (currentLine entry later)
  else follow? entry.path entry.line later

theorem ownLine?_eq_none {entry : Patch} {later : List Patch} (h : ownLine? entry later = none) :
    entry.isDeletion = false ∧ follow? entry.path entry.line later = none := by
  unfold ownLine? at h
  split at h
  · simp at h
  · next edits => exact ⟨by simpa using edits, h⟩

theorem ownLine?_eq_some {entry : Patch} {later : List Patch} {line : Nat}
    (h : ownLine? entry later = some line) :
    currentLine entry later = line ∧ (entry.isDeletion = false →
      (follow? entry.path entry.line later).isSome = true) := by
  unfold ownLine? at h
  split at h
  · next deletion => exact ⟨Option.some.inj h, fun edits => by simp [deletion] at edits⟩
  · exact ⟨currentLine_of_follow? h, fun _ => by simp [h]⟩

/-! ## What one undo may touch -/

variable {σ : Type} [SourceStore σ] {window : Nat} {run : RollbackRun σ} {id : String}
  {front later : List Patch} {entry : Patch}

/-- An undo that is reported as applied changes only the line that its entry wrote, or puts back the
line that it deleted. An entry whose line was replaced or deleted by a later one is reported as
failed, stays in the history, and nothing is written. -/
structure KeepsToOwnLine (run next : RollbackRun σ) (entry : Patch) (later : List Patch) :
    Prop where
  applied : next.result.patchesApplied ≠ run.result.patchesApplied →
    ∃ line content, ownLine? entry later = some line ∧
      SourceStore.read run.store entry.path = .ok content ∧
        SourceStore.read next.store entry.path =
          .ok (Text.ofLines (undone entry line (Text.lines content))) ∧
          ∀ other, other ≠ entry.path →
            SourceStore.read next.store other = SourceStore.read run.store other
  superseded : ownLine? entry later = none →
    next.result.patchesApplied = run.result.patchesApplied ∧
      (∃ failed, failed.id = entry.id ∧
        next.result.patchesFailed = run.result.patchesFailed ++ [failed]) ∧
        next.history = run.history ∧ next.store = run.store

/-- A line of the file, within the drift window of the line at which an entry is undone, has the
text that the entry wrote, blanks around it left out. -/
def LookAlike (window : Nat) (store : σ) (entry : Patch) (later : List Patch) : Prop :=
  ∃ content index text, SourceStore.read store entry.path = .ok content ∧
    (Text.lines content)[index]? = some text ∧ Text.trim text = Text.trim entry.newCode ∧
      currentLine entry later ≤ index + 1 + window ∧ index + 1 ≤ currentLine entry later + window

section

variable {lines : List String}

theorem lookAlike_iff (readable : SourceStore.read run.store entry.path = .ok (Text.ofLines lines))
    (all : ∀ line ∈ lines, Text.IsLine line) (numbered : 1 ≤ currentLine entry later) :
    LookAlike window run.store entry later ↔
      Document.find? ⟨lines, .lf, true⟩ (currentLine entry later - 1) entry.newCode window ≠
        none := by
  rw [Ne, Document.find?_eq_none_iff]
  constructor
  · rintro ⟨content, index, text, read, place, same, low, high⟩ unmatched
    obtain rfl := Except.ok.inj (readable.symm.trans read)
    rw [Text.lines_ofLines all] at place
    exact unmatched index text place (by omega) (by omega) same
  · intro matched
    simp only [not_forall, ne_eq, not_not] at matched
    rcases matched with ⟨index, text, place, low, high, same⟩
    refine ⟨_, index, text, readable, ?_, same, by omega, by omega⟩
    rwa [Text.lines_ofLines all]

/-- The undo of an entry whose text is not found leaves everything as it was. -/
theorem undoStep_of_find?_eq_none (tries : Tries run id front entry later)
    (readable : SourceStore.read run.store entry.path = .ok (Text.ofLines lines))
    (all : ∀ line ∈ lines, Text.IsLine line) (edits : entry.isDeletion = false)
    (missed : Document.find? ⟨lines, .lf, true⟩ (currentLine entry later - 1) entry.newCode
      window = none) :
    ∃ error, undoStep window run id =
      { run with
        skipped := front.length :: run.skipped
        result := run.result.append (.ofFailures [(inverseNow entry later, error)]) } := by
  have inserts : Patch.inserts .undo (inverseNow entry later) = false := by
    rw [inverseNow, inserts_inverse, edits]
  rcases Document.edit_error_of_find?_eq_none inserts missed with ⟨error, failed⟩
  refine ⟨error, ?_⟩
  have applied := @applyAll_singleton_of_error _ _ window .undo run.store (inverseNow entry later)
    lines error readable all failed
  simp [undoStep_of_tries tries, applied]

/-- The undo of an entry whose text is found is reported as applied, wherever this is. -/
theorem undoStep_of_find?_eq_some (tries : Tries run id front entry later)
    (readable : SourceStore.read run.store entry.path = .ok (Text.ofLines lines))
    (all : ∀ line ∈ lines, Text.IsLine line) (accepts : SourceStore.AcceptsWrites run.store)
    (edits : entry.isDeletion = false) (numbered : 1 ≤ currentLine entry later) {found : Nat}
    (hit : Document.find? ⟨lines, .lf, true⟩ (currentLine entry later - 1) entry.newCode
      window = some found) :
    ∃ done, (undoStep window run id).result.patchesApplied =
      run.result.patchesApplied ++ [done] := by
  obtain ⟨done, edited, -⟩ := edit_inverse_of_find? edits numbered hit
  rcases accepts entry.path (Text.ofLines (undone entry (found + 1) lines)) with ⟨after, written⟩
  have applied : applyAll window .undo run.store [inverseNow entry later] =
      (after, .ofParts [done] [] [] [entry.path]) :=
    applyAll_singleton_of_ok readable all edited written
  refine ⟨done, ?_⟩
  simp [undoStep_of_tries tries, applied]

end

/-- One step: an undo keeps to the line of its entry exactly if this line is still there, or no
other line is taken for it. The history stays tracked as long as undos do so. -/
theorem keepsToOwnLine_undoStep [LawfulStore σ] {files : String → Except IoError String}
    (tracked : Tracked files run.history run.store) (tries : Tries run id front entry later)
    (window : Nat) :
    (KeepsToOwnLine run (undoStep window run id) entry later ↔
      (ownLine? entry later = none → ¬ LookAlike window run.store entry later)) ∧
      (KeepsToOwnLine run (undoStep window run id) entry later →
        Tracked files (undoStep window run id).history (undoStep window run id).store) := by
  cases own : ownLine? entry later with
  | some line =>
    rcases ownLine?_eq_some own with ⟨place, intact⟩
    obtain ⟨step, next⟩ := tracked_undoStep tracked tries intact window
    refine ⟨iff_of_true ⟨fun _ => ?_, fun none => ?_⟩ (by simp), fun _ => next⟩
    · rcases step.file with ⟨content, readable, restored⟩
      exact ⟨line, content, own, readable, place ▸ restored, step.others⟩
    · simp [own] at none
  | none =>
    rcases ownLine?_eq_none own with ⟨edits, -⟩
    have among : entry ∈ run.history := by simp [tries.history]
    obtain ⟨content, file⟩ := tracked.replays.recorded entry among
    rcases tracked.replays.holds entry.path content file with ⟨lines, replayed, readable⟩
    have all := tracked.replays.isLine file replayed
    have positive := one_le_line_of_replay? replayed
    have numbered : 1 ≤ currentLine entry later :=
      one_le_currentLine (positive entry among rfl) fun other mem =>
        positive other (by simp [tries.history, mem])
    rw [lookAlike_iff readable all numbered]
    cases hit : Document.find? ⟨lines, .lf, true⟩ (currentLine entry later - 1) entry.newCode
        window with
    | none =>
      rcases undoStep_of_find?_eq_none tries readable all edits hit with ⟨error, step⟩
      rw [step]
      refine ⟨iff_of_true ⟨fun applied => ?_, fun _ => ?_⟩ (by simp), fun _ => tracked⟩
      · simp at applied
      · exact ⟨by simp, ⟨(inverseNow entry later).asFailed error, rfl, rfl⟩, rfl, rfl⟩
    | some found =>
      obtain ⟨done, applied⟩ :=
        undoStep_of_find?_eq_some tries readable all tracked.accepts edits numbered hit
      have strays : ¬ KeepsToOwnLine run (undoStep window run id) entry later := by
        intro keeps
        have same := (keeps.superseded own).1
        simp [applied] at same
      exact ⟨iff_of_false strays (by simp), fun keeps => (strays keeps).elim⟩

/-! ## What a rollback may touch -/

def OwnLinesKept (engine : PatchEngine) (store : σ) (ids : List String) : Prop :=
  ∀ count id front entry later,
    (selected engine.history (some ids)).reverse[count]? = some id →
      Tries (rollbackSteps engine store ids count) id front entry later →
        KeepsToOwnLine (rollbackSteps engine store ids count)
          (rollbackSteps engine store ids (count + 1)) entry later

/-- No entry whose line was replaced or deleted is undone while another line looks like it. -/
def NoLookAlikes (engine : PatchEngine) (store : σ) (ids : List String) : Prop :=
  ∀ count id front entry later,
    (selected engine.history (some ids)).reverse[count]? = some id →
      Tries (rollbackSteps engine store ids count) id front entry later →
        ownLine? entry later = none →
          ¬ LookAlike engine.driftWindow (rollbackSteps engine store ids count).store entry later

variable [LawfulStore σ] {files : String → Except IoError String} {engine : PatchEngine}
  {store : σ} {ids : List String}

/-- As long as undos keep to their lines, what is left of the history stays tracked. -/
theorem tracked_rollbackSteps (tracked : Tracked files engine.history store) {count : Nat}
    (kept : ∀ i < count, ∀ id front entry later,
      (selected engine.history (some ids)).reverse[i]? = some id →
        Tries (rollbackSteps engine store ids i) id front entry later →
          KeepsToOwnLine (rollbackSteps engine store ids i)
            (rollbackSteps engine store ids (i + 1)) entry later) :
    Tracked files (rollbackSteps engine store ids count).history
      (rollbackSteps engine store ids count).store := by
  induction count with
  | zero => exact tracked
  | succ count ih =>
    have before := ih fun i lt => kept i (by omega)
    have last := kept count (by omega)
    have step := rollbackSteps_succ engine store ids count
    cases next : (selected engine.history (some ids)).reverse[count]? with
    | none =>
      simp only [next] at step
      exact step ▸ before
    | some id =>
      simp only [next] at step
      rw [step] at last ⊢
      cases latest : latestIndex? (rollbackSteps engine store ids count).history
          (rollbackSteps engine store ids count).skipped id with
      | none => rwa [undoStep_of_none latest]
      | some index =>
        obtain ⟨front, entry, later, tries⟩ := tries_of_latestIndex? latest
        exact (keepsToOwnLine_undoStep before tries engine.driftWindow).2
          (last id front entry later next tries)

/-- A rollback touches only the lines that its entries wrote exactly if none of them, its own line
gone, meets a line that looks like it. -/
theorem ownLinesKept_iff_noLookAlikes {now : PatchEngine} {present : σ}
    {batches : List (List Patch)} {applied : List Patch} (begins : Begins engine store)
    (built : engine.applyBatches store batches = (now, present, applied))
    (codes : ∀ entry ∈ applied, Text.IsLine entry.newCode)
    (edits : ∀ entry ∈ applied, entry.isInsertion = false) (ids : List String) :
    OwnLinesKept now present ids ↔ NoLookAlikes now present ids := by
  rcases tracked_applyBatches begins built codes edits with ⟨forgotten, -, tracked⟩
  have step : ∀ {count id front entry later},
      (selected now.history (some ids)).reverse[count]? = some id →
        Tries (rollbackSteps now present ids count) id front entry later →
          Tracked (filesAfter (SourceStore.read store) forgotten)
            (rollbackSteps now present ids count).history
            (rollbackSteps now present ids count).store →
            (KeepsToOwnLine (rollbackSteps now present ids count)
              (rollbackSteps now present ids (count + 1)) entry later ↔
              (ownLine? entry later = none → ¬ LookAlike now.driftWindow
                (rollbackSteps now present ids count).store entry later)) := by
    intro count id front entry later next tries before
    rw [rollbackSteps_succ, next]
    exact (keepsToOwnLine_undoStep before tries now.driftWindow).1
  constructor
  · intro kept count id front entry later next tries
    have before := tracked_rollbackSteps tracked fun i (_ : i < count) => kept i
    exact (step next tries before).mp (kept count id front entry later next tries)
  · intro apart count
    induction count using Nat.strongRecOn with
    | ind count ih =>
      intro id front entry later next tries
      have before := tracked_rollbackSteps tracked ih
      exact (step next tries before).mpr (apart count id front entry later next tries)

/-- A line written twice, and no other line like it: the undo of the older entry fails. -/
theorem ownLinesKept_of_line_written_twice :
    let store : MemoryStore := { files := [("a.ts", "a\nb\n")] }
    let session := applyBatches ⟨[], 500, 5⟩ store
      [[⟨"p1", "a.ts", 1, "a", "x", "", true, none, none⟩],
        [⟨"p2", "a.ts", 1, "x", "y", "", true, none, none⟩]]
    SourceStore.read session.2.1 "a.ts" = .ok "y\nb\n" ∧
      (session.1.rollback session.2.1 (some ["p1"])).2.2.success = false ∧
        OwnLinesKept session.1 session.2.1 ["p1"] := by
  intro store session
  have begins : Begins ⟨[], 500, 5⟩ store :=
    ⟨rfl, MemoryStore.acceptsWrites rfl, MemoryStore.holdsLineTexts (by decide)⟩
  have iff := @ownLinesKept_iff_noLookAlikes MemoryStore _ _ ⟨[], 500, 5⟩ store session.1
    session.2.1 _ session.2.2 begins
    (Prod.ext rfl (Prod.ext rfl rfl)) (by decide) (by decide) ["p1"]
  refine ⟨by decide, by decide, iff.mpr ?_⟩
  rintro count id front entry later next tries - ⟨content, index, text, readable, place, same, -⟩
  have order : (selected session.1.history (some ["p1"])).reverse = ["p1"] := by decide
  rw [order] at next
  obtain ⟨rfl, rfl⟩ : count = 0 ∧ "p1" = id := by
    cases count with
    | zero => exact ⟨rfl, Option.some.inj next⟩
    | succ count => simp at next
  have oldest : latestIndex? (rollbackSteps session.1 session.2.1 ["p1"] 0).history
      (rollbackSteps session.1 session.2.1 ["p1"] 0).skipped "p1" = some 0 := by decide
  have texts : (rollbackSteps session.1 session.2.1 ["p1"] 0).history.map
      (fun patch => (patch.path, patch.newCode)) = [("a.ts", "x"), ("a.ts", "y")] := by
    decide
  have nothing : front = [] :=
    List.eq_nil_of_length_eq_zero (Option.some.inj (tries.latest.symm.trans oldest))
  rw [tries.history, nothing, List.nil_append, List.map_cons, List.cons.injEq,
    Prod.mk.injEq] at texts
  rw [texts.1.1] at readable
  rw [texts.1.2] at same
  have present : SourceStore.read (rollbackSteps session.1 session.2.1 ["p1"] 0).store "a.ts" =
      .ok "y\nb\n" := by decide
  obtain rfl := Except.ok.inj (present.symm.trans readable)
  have unlike : ∀ line ∈ Text.lines "y\nb\n", Text.trim line ≠ Text.trim "x" := by decide
  exact unlike text (List.mem_of_getElem? place) same

/-- A line written twice, and below it one with the text first written: the undo of the older entry
rewrites the line below and is reported as applied. Undoing the rest then succeeds as well, and the
file is not as it was. -/
theorem rollback_rewrites_look_alike :
    let store : MemoryStore := { files := [("a.ts", "a\nx\n")] }
    let session := applyBatches ⟨[], 500, 5⟩ store
      [[⟨"p1", "a.ts", 1, "a", "x", "", true, none, none⟩],
        [⟨"p2", "a.ts", 1, "x", "y", "", true, none, none⟩]]
    let back := session.1.rollback session.2.1 (some ["p1"])
    let rest := back.1.rollback back.2.1 none
    SourceStore.read session.2.1 "a.ts" = .ok "y\nx\n" ∧
      (back.2.2.success = true ∧ SourceStore.read back.2.1 "a.ts" = .ok "y\na\n") ∧
        (rest.2.2.success = true ∧ rest.1.history = [] ∧
          SourceStore.read rest.2.1 "a.ts" = .ok "x\na\n") ∧
          ¬ OwnLinesKept session.1 session.2.1 ["p1"] := by
  intro store session back rest
  refine ⟨by decide, by decide, by decide, fun kept => ?_⟩
  have tries : Tries (rollbackSteps session.1 session.2.1 ["p1"] 0) "p1" []
      ⟨"p1", "a.ts", 1, "a", "x", "", true, some true, none⟩
      [⟨"p2", "a.ts", 1, "x", "y", "", true, some true, none⟩] :=
    ⟨by decide, by decide⟩
  have keeps := kept 0 "p1" _ _ _ (by decide) tries
  have unapplied := (keeps.superseded (by decide)).1
  revert unapplied
  decide

end PatchEngine

end ChangeImpact
