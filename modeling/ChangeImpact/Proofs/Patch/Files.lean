import ChangeImpact.Patch.Engine
import ChangeImpact.Proofs.Patch.Log
import ChangeImpact.Proofs.Store.Lawful

/-!
# Patches applied file by file

What the store holds after patches are applied is what their records make of the first files, and
the document before each edit is what the records before it make of them.
-/

namespace ChangeImpact

namespace PatchApplyResult

@[simp] theorem patchesApplied_append (first second : PatchApplyResult) :
    (first.append second).patchesApplied = first.patchesApplied ++ second.patchesApplied := rfl

@[simp] theorem patchesApplied_ofFailures (failures : List (Patch × PatchError)) :
    (ofFailures failures).patchesApplied = [] := rfl

@[simp] theorem patchesApplied_ofParts (applied failed : List Patch)
    (errors files : List String) : (ofParts applied failed errors files).patchesApplied = applied :=
  rfl

theorem append_ofParts (applied : List Patch) (errors files : List String) (done : Patch)
    (path : String) :
    (ofParts applied [] errors files).append (ofParts [done] [] [] [path]) =
      ofParts (applied ++ [done]) [] errors
        (if path ∈ files then files else files ++ [path]) := by
  simp [append, ofParts]

end PatchApplyResult

variable {σ : Type} [SourceStore σ]

/-! ## The edits of a run -/

def fileLog (window : Nat) (store : σ) (path : String) (patches : List Patch) :
    List AppliedEdit :=
  match SourceStore.read store path with
  | .error _ => []
  | .ok content =>
    let doc := Document.parse content
    match SourceStore.write store path (EditRun.run window .apply doc patches).doc.render with
    | .error _ => []
    | .ok _ => EditRun.log window doc patches

def filesLog (window : Nat) (patches : List Patch) : σ → List String → List AppliedEdit
  | _, [] => []
  | store, path :: rest =>
    let own := filePatches .apply patches path
    fileLog window store path own ++
      filesLog window patches (applyToFile window .apply store path own).1 rest

/-! ## Patches of one file -/

theorem path_eq_of_mem_filePatches {mode : EditMode} {patches : List Patch} {path : String}
    {patch : Patch} (mem : patch ∈ filePatches mode patches path) :
    patch ∈ patches ∧ patch.path = path := by
  have filtered := (Ascending.perm_sortBy _ _).mem_iff.mp mem
  simpa using filtered

theorem map_done_fileLog (window : Nat) (store : σ) (path : String) (patches : List Patch) :
    (fileLog window store path patches).map (·.done) =
      (applyToFile window .apply store path patches).2.patchesApplied := by
  unfold fileLog applyToFile
  cases SourceStore.read store path with
  | error cause => rfl
  | ok content =>
    have applied := EditRun.map_done_log window (Document.parse content) patches
    by_cases empty : (EditRun.run window .apply (Document.parse content) patches).applied = []
    · rw [empty, List.map_eq_nil_iff] at applied
      simp only [empty, applied]
      split <;> rfl
    · simp only [List.isEmpty_iff, empty, if_false]
      split
      · next cause refused => simp [refused]
      · next after written => simp [written, applied]

/-- Either nothing was applied and the store is as before, or the document at the end of the run of
edits was written. -/
theorem applyToFile_cases {window : Nat} {store : σ} {path content : String}
    (readable : SourceStore.read store path = .ok content) (patches : List Patch) :
    (fileLog window store path patches = [] ∧
        (applyToFile window .apply store path patches).1 = store) ∨
      (fileLog window store path patches = EditRun.log window (Document.parse content) patches ∧
        SourceStore.write store path
          (EditRun.run window .apply (Document.parse content) patches).doc.render =
            .ok (applyToFile window .apply store path patches).1) := by
  have applied := EditRun.map_done_log window (Document.parse content) patches
  unfold fileLog applyToFile
  simp only [readable]
  by_cases empty : (EditRun.run window .apply (Document.parse content) patches).applied = []
  · rw [empty, List.map_eq_nil_iff] at applied
    left
    simp only [empty, applied, List.isEmpty_nil, if_true, and_true]
    split <;> rfl
  · cases SourceStore.write store path
      (EditRun.run window .apply (Document.parse content) patches).doc.render with
    | error cause => left; simp [empty]
    | ok after => right; simp [empty]

/-! ## What the store holds -/

/-- The store holds what recorded patches make of the first files, which are texts of whole
lines. -/
structure Replays (files : String → Except IoError String) (history : List Patch) (store : σ) :
    Prop where
  whole : ∀ path content, files path = .ok content → Text.IsLineText content
  codes : ∀ entry ∈ history, Text.IsLine entry.newCode
  recorded : ∀ entry ∈ history, ∃ content, files entry.path = .ok content
  holds : ∀ path content, files path = .ok content →
    ∃ lines, Patch.replay? path history (Text.lines content) = some lines ∧
      SourceStore.read store path = .ok (Text.ofLines lines)
  missing : ∀ path cause, files path = .error cause → SourceStore.read store path = .error cause

/-- The files that can be read are texts of whole lines. -/
def HoldsLineTexts (store : σ) : Prop :=
  ∀ path content, SourceStore.read store path = .ok content → Text.IsLineText content

theorem MemoryStore.holdsLineTexts {store : MemoryStore}
    (h : ∀ file ∈ store.files, Text.IsLineText file.2) : HoldsLineTexts store := by
  intro path content readable
  rcases MemoryStore.read_ok_iff.mp readable with ⟨-, found⟩
  rcases List.lookup_eq_some_iff.mp found with ⟨before, after, listed, -⟩
  exact h (path, content) (by simp [listed])

theorem Replays.start {store : σ} (whole : HoldsLineTexts store) :
    Replays (SourceStore.read store) [] store where
  whole := whole
  codes := by simp
  recorded := by simp
  holds path content readable :=
    ⟨Text.lines content, rfl, by rw [Text.ofLines_lines (whole path content readable), readable]⟩
  missing _ _ unreadable := unreadable

variable {files : String → Except IoError String} {history later : List Patch} {store after : σ}

theorem Replays.isLine (replays : Replays files history store) {path content : String}
    {lines : List String} (file : files path = .ok content)
    (h : Patch.replay? path history (Text.lines content) = some lines) :
    ∀ line ∈ lines, Text.IsLine line :=
  Patch.isLine_of_replay? h replays.codes fun _ =>
    Text.isLine_of_mem_lines (replays.whole path content file)

/-- A file without records is as it was at first. -/
theorem Replays.read_of_path_ne (replays : Replays files history store) {path : String}
    (apart : ∀ entry ∈ history, entry.path ≠ path) :
    SourceStore.read store path = files path := by
  cases file : files path with
  | error cause => exact replays.missing path cause file
  | ok content =>
    obtain ⟨lines, replayed, readable⟩ := replays.holds path content file
    rw [Patch.replay?_of_path_ne apart] at replayed
    obtain rfl := Option.some.inj replayed
    rw [readable, Text.ofLines_lines (replays.whole path content file)]

theorem Replays.write [LawfulStore σ] (replays : Replays files history store)
    {path content : String} {lines : List String} (file : files path = .ok content)
    (codes : ∀ entry ∈ later, Text.IsLine entry.newCode)
    (recorded : ∀ entry ∈ later, ∃ content, files entry.path = .ok content)
    (replayed : Patch.replay? path later (Text.lines content) = some lines)
    (others : ∀ other, other ≠ path → Patch.replay? other later = Patch.replay? other history)
    (written : SourceStore.write store path (Text.ofLines lines) = .ok after) :
    Replays files later after where
  whole := replays.whole
  codes := codes
  recorded := recorded
  holds other text ofOther := by
    by_cases same : other = path
    · subst same
      obtain rfl := Except.ok.inj (file.symm.trans ofOther)
      rcases replays.holds other content file with ⟨before, -, readable⟩
      exact ⟨lines, replayed, LawfulStore.read_write readable written⟩
    · rw [others other same, LawfulStore.read_write_of_ne written other same]
      exact replays.holds other text ofOther
  missing other cause unreadable := by
    have differ : other ≠ path := by
      rintro rfl
      simp [file] at unreadable
    rw [LawfulStore.read_write_of_ne written other differ]
    exact replays.missing other cause unreadable

/-- Writing one file and recording patches of this file. -/
theorem Replays.record [LawfulStore σ] (replays : Replays files history store)
    {path content : String} {lines last : List String} {entries : List Patch}
    (file : files path = .ok content)
    (begun : Patch.replay? path history (Text.lines content) = some lines)
    (records : ∀ entry ∈ entries, entry.path = path ∧ Text.IsLine entry.newCode)
    (replayed : Patch.replay? path entries lines = some last)
    (written : SourceStore.write store path (Text.ofLines last) = .ok after) :
    Replays files (history ++ entries) after := by
  refine replays.write file ?_ ?_ ?_ ?_ written
  · intro entry mem
    rcases List.mem_append.mp mem with mem | mem
    · exact replays.codes entry mem
    · exact (records entry mem).2
  · intro entry mem
    rcases List.mem_append.mp mem with mem | mem
    · exact replays.recorded entry mem
    · exact ⟨content, (records entry mem).1 ▸ file⟩
  · rw [Patch.replay?_append, begun, Option.bind_some, replayed]
  · intro other differ
    have apart : ∀ entry ∈ entries, entry.path ≠ other := fun entry mem same =>
      differ (same.symm.trans (records entry mem).1)
    funext first
    rw [Patch.replay?_append, funext (Patch.replay?_of_path_ne apart), Option.bind_fun_some]

/-- The document before each edit is what the records made before it make of the first files. -/
def Logged (files : String → Except IoError String) : List Patch → List AppliedEdit → Prop
  | _, [] => True
  | history, edit :: rest =>
    (∃ content lines, files edit.done.path = .ok content ∧
      Patch.replay? edit.done.path history (Text.lines content) = some lines ∧
        edit.before = ⟨lines, .lf, true⟩) ∧
      Logged files (history ++ [edit.done]) rest

theorem logged_append {first second : List AppliedEdit} :
    Logged files history (first ++ second) ↔
      Logged files history first ∧ Logged files (history ++ first.map (·.done)) second := by
  induction first generalizing history with
  | nil => simp [Logged]
  | cons edit rest ih => simp [Logged, ih, and_assoc]

/-- The records of a run of edits replay it, from the lines it began with to those it ended
with. -/
theorem log_replays {window : Nat} {path content : String} (file : files path = .ok content)
    {patches : List Patch} (ofPath : ∀ patch ∈ patches, patch.path = path) {lines : List String}
    (begun : Patch.replay? path history (Text.lines content) = some lines)
    (all : ∀ line ∈ lines, Text.IsLine line)
    (plain : ∀ edit ∈ EditRun.log window ⟨lines, .lf, true⟩ patches, edit.IsPlain) :
    Logged files history (EditRun.log window ⟨lines, .lf, true⟩ patches) ∧
      (∀ edit ∈ EditRun.log window ⟨lines, .lf, true⟩ patches,
        edit.done.path = path ∧ Text.IsLine edit.done.newCode) ∧
      ∃ last, (EditRun.run window .apply ⟨lines, .lf, true⟩ patches).doc = ⟨last, .lf, true⟩ ∧
        Patch.replay? path ((EditRun.log window ⟨lines, .lf, true⟩ patches).map (·.done)) lines =
          some last := by
  induction patches generalizing history lines with
  | nil => simp [EditRun.log, EditRun.run, Logged, Patch.replay?]
  | cons patch rest ih =>
    have ofRest : ∀ other ∈ rest, other.path = path := fun other mem =>
      ofPath other (List.mem_cons_of_mem _ mem)
    cases edited : Document.edit ⟨lines, .lf, true⟩ window .apply patch with
    | error error =>
      simp only [EditRun.log, edited, EditRun.run_cons_error edited] at plain ⊢
      exact ih ofRest begun all plain
    | ok pair =>
      rcases pair with ⟨next, done⟩
      simp only [EditRun.log, edited, EditRun.run_cons_ok edited] at plain ⊢
      obtain ⟨code, kept⟩ := plain _ List.mem_cons_self
      rcases AppliedEdit.redo?_of_edit edited kept with ⟨samePath, redone, shape⟩
      have donePath : done.path = path := samePath.trans (ofPath patch List.mem_cons_self)
      have doneCode := AppliedEdit.isLine_newCode_of_edit edited code all
      have extended : Patch.replay? path (history ++ [done]) (Text.lines content) =
          some next.lines := by
        rw [Patch.replay?_append, begun, Option.bind_some, Patch.replay?_cons_of_eq donePath,
          redone]
        rfl
      rw [shape] at plain ⊢
      obtain ⟨logged, records, last, final, replayed⟩ :=
        ih ofRest extended (Patch.isLine_of_redo? redone doneCode all) fun edit mem =>
          plain edit (List.mem_cons_of_mem _ mem)
      refine ⟨⟨⟨content, lines, donePath ▸ file, donePath ▸ begun, rfl⟩, logged⟩, ?_, last,
        final, ?_⟩
      · rintro edit (_ | ⟨_, mem⟩)
        · exact ⟨donePath, doneCode⟩
        · exact records edit mem
      · rw [List.map_cons, Patch.replay?_cons_of_eq donePath, redone, Option.bind_some, replayed]

/-! ## One file -/

/-- One step of a run: the patches of one file are applied, and the records of those that were
applied follow the history. -/
theorem replays_applyToFile [LawfulStore σ] (replays : Replays files history store) {window : Nat}
    {path : String} {patches : List Patch} (ofPath : ∀ patch ∈ patches, patch.path = path)
    (plain : ∀ edit ∈ fileLog window store path patches, edit.IsPlain) :
    Logged files history (fileLog window store path patches) ∧
      Replays files (history ++ (fileLog window store path patches).map (·.done))
        (applyToFile window .apply store path patches).1 := by
  cases file : files path with
  | error cause =>
    have unreadable := replays.missing path cause file
    have nothing : fileLog window store path patches = [] := by simp [fileLog, unreadable]
    have same : (applyToFile window .apply store path patches).1 = store := by
      simp [applyToFile, unreadable]
    rw [nothing, same]
    simpa [Logged] using replays
  | ok content =>
    rcases replays.holds path content file with ⟨lines, begun, readable⟩
    have all := replays.isLine file begun
    rcases applyToFile_cases readable patches with ⟨nothing, same⟩ | ⟨log, written⟩
    · rw [nothing, same]
      simpa [Logged] using replays
    · rw [Document.parse_ofLines all] at log written
      rw [log] at plain ⊢
      obtain ⟨logged, records, last, final, replayed⟩ := log_replays file ofPath begun all plain
      rw [final, Document.render_lf] at written
      refine ⟨logged, replays.record file begun ?_ replayed written⟩
      intro entry mem
      rcases List.mem_map.mp mem with ⟨edit, among, rfl⟩
      exact records edit among

theorem acceptsWrites_applyToFile [LawfulStore σ] (accepts : SourceStore.AcceptsWrites store)
    (window : Nat) (mode : EditMode) (path : String) (patches : List Patch) :
    SourceStore.AcceptsWrites (applyToFile window mode store path patches).1 := by
  unfold applyToFile
  split
  · exact accepts
  · dsimp only
    split
    · exact accepts
    · split
      · next after written => exact accepts.write written
      · exact accepts

theorem mem_fileLog {window : Nat} {path : String} {patches : List Patch} {edit : AppliedEdit}
    (mem : edit ∈ fileLog window store path patches) :
    edit.patch ∈ patches ∧ edit.Made window := by
  unfold fileLog at mem
  split at mem
  · simp at mem
  · dsimp only at mem
    split at mem
    · simp at mem
    · exact EditRun.mem_log mem

/-! ## One file after another -/

def applyFiles (window : Nat) (patches : List Patch) (start : σ × PatchApplyResult)
    (paths : List String) : σ × PatchApplyResult :=
  paths.foldl
    (fun (store, result) path =>
      let (store, next) := applyToFile window .apply store path (filePatches .apply patches path)
      (store, result.append next))
    start

section

variable {window : Nat} {patches : List Patch} {paths : List String}

theorem mem_filesLog {edit : AppliedEdit} (mem : edit ∈ filesLog window patches store paths) :
    edit.patch ∈ patches ∧ edit.Made window := by
  induction paths generalizing store with
  | nil => simp [filesLog] at mem
  | cons path rest ih =>
    rcases List.mem_append.mp mem with mem | mem
    · rcases mem_fileLog mem with ⟨among, made⟩
      exact ⟨(path_eq_of_mem_filePatches among).1, made⟩
    · exact ih mem

theorem map_done_filesLog (result : PatchApplyResult) :
    (applyFiles window patches (store, result) paths).2.patchesApplied =
      result.patchesApplied ++ (filesLog window patches store paths).map (·.done) := by
  induction paths generalizing store result with
  | nil => simp [applyFiles, filesLog]
  | cons path rest ih =>
    have tail := @ih (applyToFile window .apply store path (filePatches .apply patches path)).1
      (result.append (applyToFile window .apply store path (filePatches .apply patches path)).2)
    rw [PatchApplyResult.patchesApplied_append, ← map_done_fileLog] at tail
    simpa [applyFiles, filesLog] using tail

/-- The run over all files: each step leaves a store that the records made so far replay. -/
theorem replays_applyFiles [LawfulStore σ] (replays : Replays files history store)
    (plain : ∀ edit ∈ filesLog window patches store paths, edit.IsPlain)
    (result : PatchApplyResult) :
    Logged files history (filesLog window patches store paths) ∧
      Replays files (history ++ (filesLog window patches store paths).map (·.done))
        (applyFiles window patches (store, result) paths).1 := by
  induction paths generalizing store history result with
  | nil => simpa [filesLog, applyFiles, Logged] using replays
  | cons path rest ih =>
    unfold filesLog at plain ⊢
    obtain ⟨logged, next⟩ := replays_applyToFile replays
      (fun patch mem => (path_eq_of_mem_filePatches mem).2)
      (fun edit mem => plain edit (List.mem_append_left _ mem))
    obtain ⟨later, last⟩ := ih next (fun edit mem => plain edit (List.mem_append_right _ mem))
      (result.append (applyToFile window .apply store path (filePatches .apply patches path)).2)
    refine ⟨logged_append.mpr ⟨logged, later⟩, ?_⟩
    rw [List.map_append, ← List.append_assoc]
    exact last

theorem acceptsWrites_applyFiles [LawfulStore σ] (accepts : SourceStore.AcceptsWrites store)
    (result : PatchApplyResult) :
    SourceStore.AcceptsWrites (applyFiles window patches (store, result) paths).1 := by
  induction paths generalizing store result with
  | nil => exact accepts
  | cons path rest ih => exact ih (acceptsWrites_applyToFile accepts window .apply path _) _

end

end ChangeImpact
