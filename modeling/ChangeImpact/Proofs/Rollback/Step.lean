import ChangeImpact.Proofs.Patch.Session
import ChangeImpact.Proofs.Rollback.Transport

/-!
# One undo

Which entry an undo is tried on, and what it does to the history, the store and the result: if the
entry can be undone where it stands now, the store holds afterwards what the entries that are left
make of the first files.
-/

namespace ChangeImpact

/-! ## One patch -/

section

variable {σ : Type} [SourceStore σ] {window : Nat} {mode : EditMode} {store after : σ}
  {patch done : Patch} {lines next : List String}

theorem applyAll_singleton (window : Nat) (mode : EditMode) (store : σ) (patch : Patch) :
    applyAll window mode store [patch] =
      ((applyToFile window mode store patch.path [patch]).1,
        PatchApplyResult.empty.append (applyToFile window mode store patch.path [patch]).2) := by
  simp [applyAll, filePatches, Ascending.ofList, Ascending.insert, Ascending.sortBy,
    Ascending.insertBy]

theorem applyAll_singleton_of_ok
    (readable : SourceStore.read store patch.path = .ok (Text.ofLines lines))
    (all : ∀ line ∈ lines, Text.IsLine line)
    (edited : Document.edit ⟨lines, .lf, true⟩ window mode patch =
      .ok (⟨next, .lf, true⟩, done))
    (written : SourceStore.write store patch.path (Text.ofLines next) = .ok after) :
    applyAll window mode store [patch] = (after, .ofParts [done] [] [] [patch.path]) := by
  have run : EditRun.run window mode ⟨lines, .lf, true⟩ [patch] =
      ⟨⟨next, .lf, true⟩, [done], []⟩ := EditRun.run_cons_ok edited []
  rw [applyAll_singleton]
  simp [applyToFile, readable, Document.parse_ofLines all, run, Document.render_lf, written,
    PatchApplyResult.append, PatchApplyResult.ofFailures, PatchApplyResult.ofParts,
    PatchApplyResult.empty]

theorem applyAll_singleton_of_error {error : PatchError}
    (readable : SourceStore.read store patch.path = .ok (Text.ofLines lines))
    (all : ∀ line ∈ lines, Text.IsLine line)
    (edited : Document.edit ⟨lines, .lf, true⟩ window mode patch = .error error) :
    applyAll window mode store [patch] = (store, .ofFailures [(patch, error)]) := by
  have run : EditRun.run window mode ⟨lines, .lf, true⟩ [patch] =
      ⟨⟨lines, .lf, true⟩, [], [(patch, error)]⟩ := EditRun.run_cons_error edited []
  rw [applyAll_singleton]
  simp [applyToFile, readable, Document.parse_ofLines all, run, PatchApplyResult.append,
    PatchApplyResult.ofFailures, PatchApplyResult.ofParts, PatchApplyResult.empty]

end

namespace PatchEngine

/-! ## The entry tried -/

theorem latestIndex?_eq_some {history : List Patch} {skipped : List Nat} {id : String}
    {index : Nat} (h : latestIndex? history skipped id = some index) :
    ∃ entry, history[index]? = some entry ∧ entry.id = id ∧ index ∉ skipped := by
  unfold latestIndex? at h
  obtain ⟨⟨entry, place⟩, found, same⟩ := Option.map_eq_some_iff.mp h
  obtain rfl : place = index := same
  have mem := List.mem_reverse.mp (List.mem_of_find?_eq_some found)
  have holds := List.find?_some found
  simp only [Bool.and_eq_true, beq_iff_eq, Bool.not_eq_true', List.contains_eq_mem,
    decide_eq_false_iff_not] at holds
  exact ⟨entry, List.mem_zipIdx_iff_getElem?.mp mem, holds.1, holds.2⟩

theorem latestIndex?_ne_none {history : List Patch} {entry : Patch} (mem : entry ∈ history) :
    latestIndex? history [] entry.id ≠ none := by
  rcases List.mem_iff_getElem.mp mem with ⟨index, bound, same⟩
  have among : (entry, index) ∈ history.zipIdx.reverse :=
    List.mem_reverse.mpr (List.mem_zipIdx_iff_getElem?.mpr (by simp [bound, same]))
  intro missing
  unfold latestIndex? at missing
  rw [Option.map_eq_none_iff, List.find?_eq_none] at missing
  simpa using missing _ among

theorem latestIndex?_concat (front : List Patch) (entry : Patch) :
    latestIndex? (front ++ [entry]) [] entry.id = some front.length := by
  simp [latestIndex?, List.zipIdx_append]

variable {σ : Type}

/-- An undo is tried on an entry, between those recorded before it and those recorded after it. -/
structure Tries (run : RollbackRun σ) (id : String) (front : List Patch) (entry : Patch)
    (later : List Patch) : Prop where
  history : run.history = front ++ entry :: later
  latest : latestIndex? run.history run.skipped id = some front.length

theorem tries_of_latestIndex? {run : RollbackRun σ} {id : String} {index : Nat}
    (latest : latestIndex? run.history run.skipped id = some index) :
    ∃ front entry later, Tries run id front entry later := by
  rcases latestIndex?_eq_some latest with ⟨entry, place, -, -⟩
  obtain ⟨front, later, history, rfl⟩ := exists_append_of_getElem? place
  exact ⟨front, entry, later, history, latest⟩

theorem Tries.id_eq {run : RollbackRun σ} {id : String} {front later : List Patch} {entry : Patch}
    (tries : Tries run id front entry later) : entry.id = id := by
  rcases latestIndex?_eq_some tries.latest with ⟨other, place, same, -⟩
  rw [tries.history, List.getElem?_append_right (Nat.le_refl _), Nat.sub_self] at place
  obtain rfl : entry = other := by simpa using place
  exact same

theorem Tries.getElem?_eq {run : RollbackRun σ} {id : String} {front later : List Patch}
    {entry : Patch} (tries : Tries run id front entry later) :
    run.history[front.length]? = some entry := by
  simp [tries.history]

theorem Tries.drop_eq {run : RollbackRun σ} {id : String} {front later : List Patch}
    {entry : Patch} (tries : Tries run id front entry later) :
    run.history.drop (front.length + 1) = later := by
  simp [tries.history, List.drop_append]

variable [SourceStore σ] {window : Nat} {run : RollbackRun σ} {id : String}

theorem undoStep_of_none (none : latestIndex? run.history run.skipped id = none) :
    undoStep window run id = run := by
  simp [undoStep, none]

def inverseNow (entry : Patch) (later : List Patch) : Patch :=
  { entry.inverse with line := currentLine entry later }

variable {front later : List Patch} {entry : Patch}

theorem undoStep_of_tries (tries : Tries run id front entry later) :
    undoStep window run id =
      let (store, step) := applyAll window .undo run.store [inverseNow entry later]
      if step.patchesApplied.isEmpty then
        { run with
          skipped := front.length :: run.skipped, store, result := run.result.append step }
      else
        { history := front ++ rebase entry later
          skipped := run.skipped.map fun i => if front.length < i then i - 1 else i
          store, result := run.result.append step } := by
  have before : run.history.take front.length = front := by simp [tries.history]
  unfold undoStep
  simp only [tries.latest, tries.getElem?_eq, tries.drop_eq, before]
  rfl

/-- A rollback of selected entries after its first undos. -/
def rollbackSteps (engine : PatchEngine) (store : σ) (ids : List String) (count : Nat) :
    RollbackRun σ :=
  undoAll engine.driftWindow (beginRollback engine store (some ids))
    ((selected engine.history (some ids)).reverse.take count)

theorem rollbackSteps_succ (engine : PatchEngine) (store : σ) (ids : List String) (count : Nat) :
    rollbackSteps engine store ids (count + 1) =
      match (selected engine.history (some ids)).reverse[count]? with
      | some id => undoStep engine.driftWindow (rollbackSteps engine store ids count) id
      | none => rollbackSteps engine store ids count := by
  rw [rollbackSteps, List.take_add_one, undoAll, List.foldl_append]
  cases (selected engine.history (some ids)).reverse[count]? <;> rfl

/-! ## The edit of an undo -/

section

variable {line found : Nat} {lines : List String} {ending : LineEnding} {trailing : Bool}

theorem inserts_inverse (entry : Patch) (line : Nat) :
    Patch.inserts .undo { entry.inverse with line } = entry.isDeletion := by
  by_cases empty : entry.newCode = "" <;>
    simp [Patch.inserts, Patch.isInsertion, Patch.inverse, Patch.isDeletion, empty]

theorem amend_inverse (edits : entry.isDeletion = false) (line found : Nat) (lines : List String)
    (current : String) :
    Document.amend ⟨lines, ending, trailing⟩ .undo { entry.inverse with line } found current =
      (⟨undone entry (found + 1) lines, ending, trailing⟩,
        Patch.asApplied { entry.inverse with line } (found + 1) current entry.oldCode) := by
  have newCode : entry.newCode ≠ "" := by simpa [Patch.isDeletion] using edits
  by_cases old : entry.oldCode = "" <;>
    simp [Document.amend, undone, Patch.inverse, Patch.isDeletion, Patch.isInsertion,
      Patch.replacement, old, newCode]

/-- An entry that wrote a line is undone at the line which the search for its text finds. -/
theorem edit_inverse_of_find? (edits : entry.isDeletion = false) (numbered : 1 ≤ line)
    (hit : Document.find? ⟨lines, ending, trailing⟩ (line - 1) entry.newCode window = some found) :
    ∃ done, Document.edit ⟨lines, ending, trailing⟩ window .undo { entry.inverse with line } =
        .ok (⟨undone entry (found + 1) lines, ending, trailing⟩, done) ∧ done.id = entry.id := by
  rcases Document.matches_of_find? hit with ⟨current, text, -, -⟩
  have inserts : Patch.inserts .undo { entry.inverse with line } = false := by
    rw [inserts_inverse, edits]
  have edited := Document.edit_of_find? numbered inserts hit text
  rw [amend_inverse edits] at edited
  exact ⟨_, edited, rfl⟩

/-- An entry is undone at any line that holds what it wrote. -/
theorem edit_inverse_of_standsAt (stands : StandsAt entry line lines) (window : Nat) :
    ∃ done, Document.edit ⟨lines, ending, trailing⟩ window .undo { entry.inverse with line } =
        .ok (⟨undone entry line lines, ending, trailing⟩, done) ∧ done.id = entry.id := by
  obtain ⟨numbered, place⟩ := stands
  cases deletion : entry.isDeletion with
  | true =>
    simp only [deletion, if_true] at place
    have inserts : Patch.inserts .undo { entry.inverse with line } = true := by
      rw [inserts_inverse, deletion]
    have inside : line ≤ lines.length + 1 := by omega
    have edited :=
      @Document.edit_of_inserts ⟨lines, ending, trailing⟩ _ _ window numbered inside inserts
    have lines' : undone entry line lines = lines.insertIdx (line - 1) entry.oldCode := by
      simp [undone, deletion]
    rw [lines']
    exact ⟨_, edited, rfl⟩
  | false =>
    simp only [deletion, Bool.false_eq_true, if_false] at place
    have hit := @Document.find?_of_matches ⟨lines, ending, trailing⟩ _ _ _ place rfl window
    have back := edit_inverse_of_find? deletion numbered hit
    rwa [Nat.sub_add_cancel numbered] at back

end

/-! ## The step -/

/-- What an undo leaves behind: the entry is taken out of the history and reported, its file has
the line back, and the store holds what the entries that are left make of the first files. -/
structure Undoes (files : String → Except IoError String) (run next : RollbackRun σ)
    (front : List Patch) (entry : Patch) (later : List Patch) : Prop where
  history : next.history = front ++ rebase entry later
  skipped : next.skipped = run.skipped.map fun i => if front.length < i then i - 1 else i
  reported : ∃ done, done.id = entry.id ∧
    next.result = run.result.append (.ofParts [done] [] [] [entry.path])
  file : ∃ content, SourceStore.read run.store entry.path = .ok content ∧
    SourceStore.read next.store entry.path =
      .ok (Text.ofLines (undone entry (currentLine entry later) (Text.lines content)))
  others : ∀ other, other ≠ entry.path →
    SourceStore.read next.store other = SourceStore.read run.store other
  replays : Replays files next.history next.store
  accepts : SourceStore.AcceptsWrites next.store

/-- Writing the file of an entry and taking the entry out of the history. -/
theorem replays_rebase [LawfulStore σ] {files : String → Except IoError String} {store after : σ}
    (replays : Replays files (front ++ entry :: later) store) {content : String}
    (file : files entry.path = .ok content) {lines : List String}
    (back : Patch.replay? entry.path (front ++ rebase entry later) (Text.lines content) =
      some lines)
    (written : SourceStore.write store entry.path (Text.ofLines lines) = .ok after) :
    Replays files (front ++ rebase entry later) after := by
  refine replays.write file ?_ ?_ back ?_ written
  · intro moved mem
    rcases mem_append_rebase mem with ⟨other, among, same⟩
    rw [same]
    exact replays.codes other among
  · intro moved mem
    rcases mem_append_rebase mem with ⟨other, among, same⟩
    rw [same]
    exact replays.recorded other among
  · intro other differ
    funext first
    exact replay?_rebase_of_ne (Ne.symm differ) front later first

theorem undoStep_of_revertible [LawfulStore σ] {files : String → Except IoError String}
    (replays : Replays files run.history run.store)
    (accepts : SourceStore.AcceptsWrites run.store) (tries : Tries run id front entry later)
    (revertible : Revertible entry later) (window : Nat) :
    Undoes files run (undoStep window run id) front entry later := by
  have history := tries.history
  rw [history] at replays
  rcases replays.recorded entry (by simp) with ⟨content, file⟩
  rcases replays.holds entry.path content file with ⟨lines, replayed, readable⟩
  obtain ⟨stands, back⟩ := replay?_rebase replayed revertible
  rcases edit_inverse_of_standsAt stands window with ⟨done, edited, sameId⟩
  obtain ⟨after, written⟩ := accepts entry.path
    (Text.ofLines (undone entry (currentLine entry later) lines))
  have all := replays.isLine file replayed
  have applied : applyAll window .undo run.store [inverseNow entry later] =
      (after, .ofParts [done] [] [] [entry.path]) :=
    applyAll_singleton_of_ok readable all edited written
  have step := @undoStep_of_tries _ _ window _ _ _ _ _ tries
  simp only [applied, PatchApplyResult.patchesApplied_ofParts, List.isEmpty_cons,
    Bool.false_eq_true, if_false] at step
  rw [step]
  exact
    { history := rfl
      skipped := rfl
      reported := ⟨done, sameId, rfl⟩
      file := ⟨_, readable, by
        rw [Text.lines_ofLines all]
        exact LawfulStore.read_write readable written⟩
      others := LawfulStore.read_write_of_ne written
      replays := replays_rebase replays file back written
      accepts := accepts.write written }

/-! ## Histories of replacements and deletions -/

/-- The records replay to what the store holds, and none of them inserted a line. -/
structure Tracked (files : String → Except IoError String) (history : List Patch) (store : σ) :
    Prop where
  replays : Replays files history store
  accepts : SourceStore.AcceptsWrites store
  edits : ∀ entry ∈ history, entry.isInsertion = false

/-- A run of batches from an empty history, in which nothing was inserted, leaves a tracked
history. -/
theorem tracked_applyBatches [LawfulStore σ] {engine now : PatchEngine} {store present : σ}
    {batches : List (List Patch)} {applied : List Patch} (begins : Begins engine store)
    (built : engine.applyBatches store batches = (now, present, applied))
    (codes : ∀ entry ∈ applied, Text.IsLine entry.newCode)
    (edits : ∀ entry ∈ applied, entry.isInsertion = false) :
    ∃ forgotten, applied = forgotten ++ now.history ∧
      Tracked (filesAfter (SourceStore.read store) forgotten) now.history present := by
  have records : (sessionLog engine store batches).map (·.done) = applied := by
    rw [map_done_sessionLog, built]
  have plain : ∀ edit ∈ sessionLog engine store batches, edit.IsPlain := by
    intro edit mem
    have listed : edit.done ∈ applied := records ▸ List.mem_map_of_mem mem
    rcases mem_sessionLog mem with ⟨-, next, made⟩
    exact AppliedEdit.isPlain_of_edit made (codes _ listed) (edits _ listed)
  have writable := @acceptsWrites_applyBatches _ _ engine store batches _ begins.accepts
  rcases replays_history begins plain with ⟨forgotten, cut, history, replays⟩
  rw [built] at history replays writable
  have split : applied = forgotten.map (·.done) ++ now.history := by
    rw [← records, cut, List.map_append, history]
  exact ⟨_, split, replays, writable, fun entry mem => edits entry (by simp [split, mem])⟩

/-- An undo of an entry that can be undone keeps the history tracked. -/
theorem tracked_undoStep [LawfulStore σ] {files : String → Except IoError String}
    (tracked : Tracked files run.history run.store) (tries : Tries run id front entry later)
    (intact : entry.isDeletion = false →
      (Patch.follow? entry.path entry.line later).isSome = true) (window : Nat) :
    Undoes files run (undoStep window run id) front entry later ∧
      Tracked files (undoStep window run id).history
        (undoStep window run id).store := by
  have edits : ∀ other ∈ front ++ entry :: later, other.isInsertion = false :=
    tries.history ▸ tracked.edits
  have revertible : Revertible entry later :=
    { onlyEdits := fun other mem _ => edits other (by simp [mem])
      last_of_isInsertion := fun insertion => by simp [edits entry (by simp)] at insertion
      intact := intact }
  have step := undoStep_of_revertible tracked.replays tracked.accepts tries revertible window
  refine ⟨step, step.replays, step.accepts, fun moved mem => ?_⟩
  rw [step.history] at mem
  obtain ⟨other, among, same⟩ := mem_append_rebase mem
  rw [same]
  exact edits other among

end PatchEngine

end ChangeImpact
