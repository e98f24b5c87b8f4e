import ChangeImpact.Proofs.Patch.Files
import ChangeImpact.Proofs.Patch.History

/-!
# Batches applied one after another

The history of an engine after a run of batches is the last part of the records of the run. What
the store holds is what these records make of the files as they were just before the first of them.
-/

namespace ChangeImpact

variable {σ : Type} [SourceStore σ]

namespace PatchEngine

/-- Applies batches of patches one after another, and gives all the patches applied, oldest
first. -/
def applyBatches (engine : PatchEngine) (store : σ) :
    List (List Patch) → PatchEngine × σ × List Patch
  | [] => (engine, store, [])
  | batch :: rest =>
    let (engine, store, result) := engine.apply store batch
    let (engine, store, applied) := applyBatches engine store rest
    (engine, store, result.patchesApplied ++ applied)

def sessionLog (engine : PatchEngine) (store : σ) : List (List Patch) → List AppliedEdit
  | [] => []
  | batch :: rest =>
    let (next, after, _) := engine.apply store batch
    filesLog engine.driftWindow batch store (Ascending.ofList (batch.map (·.path))) ++
      sessionLog next after rest

variable {engine : PatchEngine} {store : σ} {batches : List (List Patch)}
  {files : String → Except IoError String} {history : List Patch}

theorem mem_sessionLog {edit : AppliedEdit} (mem : edit ∈ sessionLog engine store batches) :
    (∃ batch ∈ batches, edit.patch ∈ batch) ∧ edit.Made engine.driftWindow := by
  induction batches generalizing engine store with
  | nil => simp [sessionLog] at mem
  | cons batch rest ih =>
    rcases List.mem_append.mp mem with mem | mem
    · rcases mem_filesLog mem with ⟨among, made⟩
      exact ⟨⟨batch, List.mem_cons_self, among⟩, made⟩
    · obtain ⟨⟨other, listed, among⟩, made⟩ := ih mem
      exact ⟨⟨other, List.mem_cons_of_mem _ listed, among⟩, driftWindow_record engine _ ▸ made⟩

theorem map_done_sessionLog (engine : PatchEngine) (store : σ) (batches : List (List Patch)) :
    (sessionLog engine store batches).map (·.done) = (applyBatches engine store batches).2.2 := by
  induction batches generalizing engine store with
  | nil => rfl
  | cons batch rest ih =>
    have applied : (filesLog engine.driftWindow batch store
        (Ascending.ofList (batch.map (·.path)))).map (·.done) =
          (engine.apply store batch).2.2.patchesApplied :=
      (map_done_filesLog .empty).symm
    simp [sessionLog, applyBatches, applied, ih]

/-- After a run of batches the store holds what the records of the run make of the first files. -/
theorem replays_applyBatches [LawfulStore σ] (replays : Replays files history store)
    (plain : ∀ edit ∈ sessionLog engine store batches, edit.IsPlain) :
    Logged files history (sessionLog engine store batches) ∧
      Replays files (history ++ (sessionLog engine store batches).map (·.done))
        (applyBatches engine store batches).2.1 := by
  induction batches generalizing engine store history with
  | nil => simpa [sessionLog, applyBatches, Logged] using replays
  | cons batch rest ih =>
    unfold sessionLog at plain ⊢
    obtain ⟨logged, next⟩ := replays_applyFiles replays
      (fun edit mem => plain edit (List.mem_append_left _ mem)) .empty
    obtain ⟨later, last⟩ := ih next fun edit mem => plain edit (List.mem_append_right _ mem)
    refine ⟨logged_append.mpr ⟨logged, later⟩, ?_⟩
    rw [List.map_append, ← List.append_assoc]
    exact last

theorem acceptsWrites_applyBatches [LawfulStore σ] (accepts : SourceStore.AcceptsWrites store) :
    SourceStore.AcceptsWrites (applyBatches engine store batches).2.1 := by
  induction batches generalizing engine store with
  | nil => exact accepts
  | cons batch rest ih => exact ih (acceptsWrites_applyFiles accepts .empty)

/-! ## The history -/

theorem applyBatches_engine (fits : engine.history.length ≤ engine.historyLimit) (store : σ)
    (batches : List (List Patch)) :
    (applyBatches engine store batches).1 =
      { engine with
        history := takeLast engine.historyLimit
          (engine.history ++ (applyBatches engine store batches).2.2) } := by
  induction batches generalizing engine store with
  | nil => simp [applyBatches, takeLast_of_length_le fits]
  | cons batch rest ih =>
    have first := apply_engine_of_fits fits store batch
    have short : (engine.apply store batch).1.history.length ≤ engine.historyLimit := by
      rw [first]
      exact length_takeLast_le _ _
    have next := ih (first ▸ short) (engine.apply store batch).2.1
    simp only [applyBatches]
    rw [← first] at next
    rw [next, first]
    simp [takeLast_takeLast_append]

end PatchEngine

/-! ## Files at a later time -/

variable {files : String → Except IoError String} {front back : List Patch} {store : σ}

/-- The files after recorded patches have been replayed on them. -/
def filesAfter (files : String → Except IoError String) (history : List Patch) (path : String) :
    Except IoError String :=
  (files path).map fun content =>
    ((Patch.replay? path history (Text.lines content)).map Text.ofLines).getD content

theorem filesAfter_of_replay? {path content : String} {lines : List String}
    (file : files path = .ok content)
    (replayed : Patch.replay? path front (Text.lines content) = some lines) :
    filesAfter files front path = .ok (Text.ofLines lines) := by
  simp [filesAfter, file, replayed, Except.map]

theorem filesAfter_nil
    (whole : ∀ path content, files path = .ok content → Text.IsLineText content) :
    filesAfter files [] = files := by
  funext path
  cases file : files path with
  | error cause => simp [filesAfter, file, Except.map]
  | ok content =>
    rw [filesAfter_of_replay? file rfl, Text.ofLines_lines (whole path content file)]

/-- At the time between two parts of a history, a file has lines from which the second part makes
what the whole makes of the first lines. -/
theorem exists_filesAfter (replays : Replays files (front ++ back) store) {path content : String}
    (file : files path = .ok content) :
    ∃ lines, filesAfter files front path = .ok (Text.ofLines lines) ∧
      (∀ line ∈ lines, Text.IsLine line) ∧
        Patch.replay? path (front ++ back) (Text.lines content) =
          Patch.replay? path back lines := by
  rcases replays.holds path content file with ⟨last, replayed, -⟩
  rw [Patch.replay?_append] at replayed
  rcases Option.bind_eq_some_iff.mp replayed with ⟨lines, first, -⟩
  refine ⟨lines, filesAfter_of_replay? file first, ?_, ?_⟩
  · exact Patch.isLine_of_replay? first
      (fun entry mem => replays.codes entry (List.mem_append_left _ mem))
      fun _ => Text.isLine_of_mem_lines (replays.whole path content file)
  · rw [Patch.replay?_append, first, Option.bind_some]

/-- A history cut in two: the store holds what the second part makes of the files at the time
between the two. -/
theorem Replays.of_append (replays : Replays files (front ++ back) store) :
    Replays (filesAfter files front) back store := by
  have file_of_ok : ∀ path content, filesAfter files front path = .ok content →
      ∃ first, files path = .ok first := by
    intro path content after
    cases file : files path with
    | ok first => exact ⟨first, rfl⟩
    | error cause => simp [filesAfter, file, Except.map] at after
  constructor
  · intro path content after
    obtain ⟨first, file⟩ := file_of_ok path content after
    rcases exists_filesAfter replays file with ⟨lines, between, all, -⟩
    obtain rfl := Except.ok.inj (between.symm.trans after)
    exact Text.isLineText_ofLines all
  · exact fun entry mem => replays.codes entry (List.mem_append_right _ mem)
  · intro entry mem
    rcases replays.recorded entry (List.mem_append_right _ mem) with ⟨content, file⟩
    obtain ⟨lines, between, -⟩ := exists_filesAfter replays file
    exact ⟨_, between⟩
  · intro path content after
    rcases file_of_ok path content after with ⟨first, file⟩
    rcases exists_filesAfter replays file with ⟨lines, between, all, same⟩
    obtain rfl := Except.ok.inj (between.symm.trans after)
    rw [Text.lines_ofLines all, ← same]
    exact replays.holds path first file
  · intro path cause after
    cases file : files path with
    | ok first =>
      obtain ⟨lines, between, -⟩ := exists_filesAfter replays file
      simp [between] at after
    | error other =>
      obtain rfl : other = cause := by simpa [filesAfter, file, Except.map] using after
      exact replays.missing path other file

/-- At the time before an edit that is the first of its file since, the file has the text that the
edit found. -/
theorem filesAfter_of_logged {forgotten before rest : List AppliedEdit} {edit : AppliedEdit}
    (logged : Logged files [] (forgotten ++ (before ++ edit :: rest)))
    (apart : ∀ other ∈ before, other.done.path ≠ edit.done.path) :
    filesAfter files (forgotten.map (·.done)) edit.done.path = .ok edit.before.render := by
  rw [logged_append, logged_append] at logged
  rcases logged.2.2.1 with ⟨content, lines, file, replayed, shape⟩
  have others : ∀ entry ∈ before.map (·.done), entry.path ≠ edit.done.path := by
    intro entry mem
    rcases List.mem_map.mp mem with ⟨other, among, rfl⟩
    exact apart other among
  rw [List.nil_append, Patch.replay?_append, funext (Patch.replay?_of_path_ne others),
    Option.bind_fun_some] at replayed
  rw [filesAfter_of_replay? file replayed, shape, Document.render_lf]

namespace PatchEngine

/-- The state in which a session begins: nothing has been recorded, no write is refused, and the
files are texts of whole lines. -/
structure Begins (engine : PatchEngine) (store : σ) : Prop where
  history : engine.history = []
  accepts : SourceStore.AcceptsWrites store
  whole : HoldsLineTexts store

variable [LawfulStore σ] {engine : PatchEngine} {batches : List (List Patch)}

/-- After a run of batches from an empty history, the store holds what the records kept make of the
files as they were just before the oldest of them. -/
theorem replays_history (begins : Begins engine store)
    (plain : ∀ edit ∈ sessionLog engine store batches, edit.IsPlain) :
    let kept := takeLast engine.historyLimit (sessionLog engine store batches)
    ∃ forgotten, sessionLog engine store batches = forgotten ++ kept ∧
      (applyBatches engine store batches).1.history = kept.map (·.done) ∧
        Replays (filesAfter (SourceStore.read store) (forgotten.map (·.done)))
          (applyBatches engine store batches).1.history
          (applyBatches engine store batches).2.1 := by
  intro kept
  obtain ⟨forgotten, cut⟩ :=
    exists_append_takeLast engine.historyLimit (sessionLog engine store batches)
  have history : (applyBatches engine store batches).1.history = kept.map (·.done) := by
    have limit : engine.history.length ≤ engine.historyLimit := by simp [begins.history]
    rw [applyBatches_engine limit, ← map_done_sessionLog]
    simp [kept, takeLast, begins.history, List.map_drop]
  have replays := (replays_applyBatches (Replays.start begins.whole) plain).2
  rw [List.nil_append, cut, List.map_append] at replays
  exact ⟨forgotten, cut, history, history ▸ replays.of_append⟩

end PatchEngine

end ChangeImpact
