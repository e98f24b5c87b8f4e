import ChangeImpact.Project.History
import ChangeImpact.Proofs.Disk.Files
import ChangeImpact.Proofs.Timestamp
import ChangeImpact.Proofs.Wire.Change

/-!
# The state kept in a project

A history that is saved is loaded again as it was. Where the state of a project can be kept, saving
does not fail, and it leaves alone what stands outside of the directory of the state.
-/

namespace ChangeImpact

open Json (Lawful record?_all required)

theorem ok_of_bind {ε α β : Type} {first : Except ε α} {next : α → Except ε β} {result : β}
    (done : (first >>= next) = .ok result) :
    ∃ value, first = .ok value ∧ next value = .ok result := by
  cases first with
  | error error => cases done
  | ok value => exact ⟨value, rfl, done⟩

theorem ok_of_mapError {ε ε' α : Type} {first : Except ε α} {context : ε → ε'} {result : α}
    (done : first.mapError context = .ok result) : first = .ok result := by
  cases first with
  | error error => cases done
  | ok value => exact congrArg _ (Except.ok.inj done)

/-! ## The text of a history -/

namespace SavedHistory

theorem keys_toJson (history : SavedHistory) :
    history.toJson.keys = ["version", "savedAt", "patches"] :=
  rfl

theorem lawful {history : SavedHistory} (range : ∀ patch ∈ history.patches, patch.InRange)
    (instant : Timestamp.isInstant history.savedAt.toList = true) :
    Lawful 3 toJson ofJson? history := by
  have patches := Patch.lawful_list 0 range
  refine ⟨.obj ?_, ?_⟩
  · simp [Json.Fits.str, patches.fits]
  · have members := record?_all (by decide) history.keys_toJson
    rw [ofJson?, toJson, members]
    simp [required, List.lookup_cons, Json.str?, instant?, Option.filter, instant, patches.reads]

theorem parse?_pretty {history : SavedHistory} (range : ∀ patch ∈ history.patches, patch.InRange)
    (instant : Timestamp.isInstant history.savedAt.toList = true) :
    (Json.parse? history.toJson.pretty).bind ofJson? = some history := by
  have lawful := history.lawful range instant
  rw [Json.parse?_pretty (lawful.fits.mono (by decide)), Option.bind_some, lawful.reads]

end SavedHistory

namespace Project

/-! ## Where the state is kept -/

theorem isEntry_state : Path.IsEntry ".ripple" :=
  ⟨by decide, by decide, by decide⟩

theorem stateDirectory_ne_empty (project : Project) : project.stateDirectory ≠ "" := by
  rcases Path.join_cases project.root isEntry_state.relative with ⟨-, shape⟩ | ⟨front, -, shape⟩ <;>
    simp [stateDirectory, path, shape]

theorem isEntry_history : Path.IsEntry "history.json" :=
  ⟨by decide, by decide, by decide⟩

def withTree (project : Project) (tree : Entry) : Project :=
  { project with disk := { project.disk with tree } }

theorem write_of_locate {project : Project} {path : String} {location : Location}
    (found : project.disk.locate (project.path path) = .ok location)
    (noDir : ¬ project.disk.tree.IsDirAt location.names) (content : String) :
    project.write path content =
      .ok (project.withTree (project.disk.tree.put location.names (.file content.toUTF8))) := by
  rw [write, Disk.writeText_of_locate found noDir]
  rfl

/-- The state of a project can be kept: the directory of the state stands in one that is there, or
can be made in it, and the file in it can be written. -/
structure KeepsState (project : Project) (base : List String) : Prop where
  stands : project.disk.tree.IsDirAt base
  directory : project.disk.locate project.stateDirectory =
    .ok ⟨base ++ [".ripple"], project.disk.tree.at? (base ++ [".ripple"])⟩
  noFile : ∀ data, project.disk.tree.seen (base ++ [".ripple"]) ≠ some (some data)
  history : Disk.Takes project.historyPath
  noDir : ¬ project.disk.tree.IsDirAt (base ++ [".ripple"] ++ ["history.json"])

variable {project : Project} {base : List String}

theorem KeepsState.locate_historyPath (keeps : project.KeepsState base)
    (made : project.disk.tree.IsDirAt (base ++ [".ripple"])) :
    project.disk.locate project.historyPath =
      .ok ⟨base ++ [".ripple"] ++ ["history.json"],
        project.disk.tree.at? (base ++ [".ripple"] ++ ["history.json"])⟩ := by
  exact Disk.locate_join keeps.directory made isEntry_history keeps.history

/-- The state can still be kept after a change that takes no directory away, and puts nothing in the
way of the state. -/
theorem KeepsState.mono (keeps : project.KeepsState base) {tree : Entry}
    (dirs : ∀ names, project.disk.tree.IsDirAt names → tree.IsDirAt names)
    (noFile : ∀ data, tree.seen (base ++ [".ripple"]) ≠ some (some data))
    (noDir : ¬ tree.IsDirAt (base ++ [".ripple"] ++ ["history.json"])) :
    (project.withTree tree).KeepsState base :=
  ⟨dirs _ keeps.stands, Disk.locate_mono keeps.directory tree dirs, noFile, keeps.history, noDir⟩

/-- The state can still be kept after a file outside of it was written. -/
theorem KeepsState.put_file (keeps : project.KeepsState base) {parent : List String} {name : String}
    (there : project.disk.tree.IsDirAt parent)
    (noDir : ¬ project.disk.tree.IsDirAt (parent ++ [name]))
    (outside : ".ripple" ∉ parent ++ [name]) (data : ByteArray) :
    (project.withTree (project.disk.tree.put (parent ++ [name]) (.file data))).KeepsState base := by
  -- The file is no directory on the way to the state, and does not stand in the state.
  have apart : ∀ more, ¬ parent ++ [name] <+: base ++ [".ripple"] ++ more := by
    intro more starts
    rcases List.prefix_or_prefix_of_prefix starts (List.prefix_append _ more) with above | below
    · rcases List.prefix_concat_iff.mp above with same | above
      · exact outside (by simp [same])
      · obtain ⟨rest, split⟩ := above
        exact noDir (Entry.IsDirAt.of_append (split ▸ keeps.stands))
    · exact outside (below.subset (by simp))
  refine keeps.mono (fun names dir => Entry.isDirAt_put there _ noDir dir) (fun told => ?_) ?_
  · rw [Entry.seen_put there _ (by simpa using apart [])]
    exact keeps.noFile told
  · rw [Entry.IsDirAt, Entry.seen_put there _ (apart _)]
    exact keeps.noDir

/-! ## Saving and loading -/

theorem loadHistory_of_readText (saved : SavedHistory)
    (read : project.disk.readText project.historyPath = .ok saved.toJson.pretty)
    (range : ∀ patch ∈ saved.patches, patch.InRange)
    (instant : Timestamp.isInstant saved.savedAt.toList = true) :
    project.loadHistory = .ok saved.patches := by
  unfold loadHistory
  simp only [Disk.has_of_readText read, read, SavedHistory.parse?_pretty range instant]
  rfl

theorem KeepsState.makeDirs (keeps : project.KeepsState base) :
    ∃ tree, project.disk.makeDirs project.stateDirectory = .ok { project.disk with tree } ∧
      (project.withTree tree).KeepsState base ∧ tree.IsDirAt (base ++ [".ripple"]) ∧
      Entry.SameBut ".ripple" project.disk.tree tree := by
  have made := Disk.makeDirs_of_locate keeps.directory
  cases entry : project.disk.tree.at? (base ++ [".ripple"]) with
  | none =>
    have noDir : ¬ project.disk.tree.IsDirAt (base ++ [".ripple"]) := by
      simp [Entry.IsDirAt, Entry.seen, entry]
    have there : (project.disk.tree.put (base ++ [".ripple"]) (.dir [])).IsDirAt
        (base ++ [".ripple"]) := Entry.isDirAt_iff.mpr ⟨[], Entry.at?_put _ _ _⟩
    rw [entry] at made
    refine ⟨_, made, keeps.mono (fun names dir => ?_) (fun data => ?_) ?_, there, ?_⟩
    · exact Entry.isDirAt_put keeps.stands _ noDir dir
    · rw [there]
      simp
    · rw [Entry.IsDirAt, Entry.seen, Entry.at?_put_append]
      simp [Entry.at?, Entry.child?, Entry.entries]
    · exact .put_hidden keeps.stands (by simp) _
  | some standing =>
    cases standing with
    | file data => exact absurd (by simp [Entry.seen, entry, Entry.data?]) (keeps.noFile data)
    | dir entries =>
      rw [entry] at made
      exact ⟨project.disk.tree, made, keeps, Entry.isDirAt_iff.mpr ⟨entries, entry⟩, .refl _ _⟩

theorem KeepsState.writeText (keeps : project.KeepsState base)
    (made : project.disk.tree.IsDirAt (base ++ [".ripple"])) (content : String) :
    ∃ tree, project.disk.writeText project.historyPath content = .ok { project.disk with tree } ∧
      (project.withTree tree).KeepsState base ∧ Entry.SameBut ".ripple" project.disk.tree tree ∧
      { project.disk with tree }.readText project.historyPath = .ok content := by
  have found := keeps.locate_historyPath made
  have dirs : ∀ names, project.disk.tree.IsDirAt names →
      (project.disk.tree.put (base ++ [".ripple"] ++ ["history.json"])
        (.file content.toUTF8)).IsDirAt names :=
    fun names dir => Entry.isDirAt_put made _ keeps.noDir dir
  refine ⟨_, Disk.writeText_of_locate found keeps.noDir content,
    keeps.mono dirs (fun data => ?_) ?_, .put_hidden made (by simp) _,
    Disk.readText_writeText found keeps.noDir content⟩
  · rw [dirs _ made]
    simp
  · rw [Entry.IsDirAt, Entry.seen, Entry.at?_put]
    simp [Entry.data?]

/-- Saving does not fail, keeps what stands outside of the directory of the state, and the next
process loads the patches that were saved. -/
theorem KeepsState.saveHistory (keeps : project.KeepsState base) {now : Nat}
    (before : now < Timestamp.horizon) {patches : List Patch}
    (range : ∀ patch ∈ patches, patch.InRange) :
    ∃ tree, project.saveHistory now patches = .ok (project.withTree tree) ∧
      (project.withTree tree).KeepsState base ∧ Entry.SameBut ".ripple" project.disk.tree tree ∧
      (project.withTree tree).loadHistory = .ok patches := by
  obtain ⟨made, makes, keepsMade, there, sameMade⟩ := keeps.makeDirs
  obtain ⟨tree, writes, keepsWritten, sameWritten, reads⟩ := keepsMade.writeText there
    (⟨version, Timestamp.render now, patches⟩ : SavedHistory).toJson.pretty
  refine ⟨tree, ?_, keepsWritten, sameMade.trans sameWritten, ?_⟩
  · unfold Project.saveHistory
    rw [makes]
    have written : Disk.writeText { project.disk with tree := made } project.historyPath
        (⟨version, Timestamp.render now, patches⟩ : SavedHistory).toJson.pretty =
          .ok { project.disk with tree } := writes
    simp only [Except.mapError, Except.bind, bind]
    rw [written]
    rfl
  · exact loadHistory_of_readText ⟨version, Timestamp.render now, patches⟩ reads range
      (Timestamp.isInstant_render before)

theorem writes_of_saveHistory {now : Nat} {patches : List Patch} {after : Project}
    (saved : project.saveHistory now patches = .ok after) :
    ∃ disk, project.disk.makeDirs project.stateDirectory = .ok disk ∧
      ∃ written, disk.writeText project.historyPath
        (⟨version, Timestamp.render now, patches⟩ : SavedHistory).toJson.pretty = .ok written := by
  obtain ⟨disk, makes, saved⟩ := ok_of_bind saved
  obtain ⟨written, writes, -⟩ := ok_of_bind saved
  exact ⟨disk, ok_of_mapError makes, written, ok_of_mapError writes⟩

/-- If the root of a project is a directory and a history can be saved, the state can be kept. -/
theorem keepsState_of_saveHistory (root : project.disk.isDir project.root = true) {now : Nat}
    {patches : List Patch} {after : Project} (saved : project.saveHistory now patches = .ok after) :
    ∃ base, project.KeepsState base := by
  obtain ⟨⟨base, entry⟩, found, stands⟩ := Disk.located_of_isDir root
  obtain ⟨disk, makes, written, writes⟩ := writes_of_saveHistory saved
  obtain ⟨file, foundFile, noDir⟩ := Disk.located_of_writeText writes
  have history := Disk.takes_of_locate foundFile
  have directory : project.disk.locate project.stateDirectory =
      .ok ⟨base ++ [".ripple"], project.disk.tree.at? (base ++ [".ripple"])⟩ :=
    Disk.locate_join found stands isEntry_state
      (history.directory isEntry_history.relative project.stateDirectory_ne_empty)
  have made := Disk.makeDirs_of_locate directory
  rw [makes] at made
  refine ⟨base, stands, directory, fun data seen => ?_, history, fun dir => ?_⟩
  · obtain ⟨standing, found, told⟩ := Option.map_eq_some_iff.mp seen
    rw [found] at made
    cases standing with
    | file data => exact nomatch made
    | dir entries => exact nomatch told
  · obtain ⟨entries, state⟩ := Entry.isDirAt_iff.mp dir.of_append
    rw [state] at made
    obtain rfl := Except.ok.inj made
    have again := Disk.locate_join directory dir.of_append isEntry_history history
    obtain rfl := Except.ok.inj (foundFile.symm.trans again)
    exact noDir dir

end Project

end ChangeImpact
