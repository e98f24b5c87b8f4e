import ChangeImpact.Proofs.Disk.Locate

/-!
# Files and directories of a disk

A file that was written is read as it was written, and reading and writing do not depend on what
stands below directories of a hidden name that the path does not have.
-/

namespace ChangeImpact

namespace Disk

variable {disk : Disk} {path : String}

/-! ## Where a path leads -/

/-- A path that is looked up: not empty, not too long, and without the character of code zero. -/
structure Takes (path : String) : Prop where
  noNul : Char.ofNat 0 ∉ path.toList
  short : path.utf8ByteSize < pathLimit
  notEmpty : path ≠ ""

def start (disk : Disk) (path : String) : List String :=
  if path.toList.head? == some '/' then [] else disk.here.reverse

theorem locate_of_takes (takes : Takes path) (disk : Disk) :
    disk.locate path = locateFrom disk.tree (disk.start path) (Path.segments path) := by
  unfold locate
  rw [if_neg (by simp [takes.noNul]), if_neg (Nat.not_le.mpr takes.short),
    if_neg (by simpa using takes.notEmpty)]
  rfl

/-- A path that is not looked up is refused on every disk, and with the same cause. -/
theorem locate_of_not_takes (refused : ¬ Takes path) :
    ∃ cause, ∀ disk : Disk, disk.locate path = .error cause := by
  by_cases nul : path.toList.contains (Char.ofNat 0) = true
  · exact ⟨.nulInPath, fun _ => if_pos nul⟩
  by_cases long : pathLimit ≤ path.utf8ByteSize
  · exact ⟨.nameTooLong, fun _ => by rw [locate, if_neg nul, if_pos long]⟩
  by_cases empty : path = ""
  · exact ⟨.noEntry, fun _ => by
      rw [locate, if_neg nul, if_neg long, if_pos (by simpa using empty)]⟩
  exact absurd ⟨by simpa using nul, Nat.not_le.mp long, empty⟩ refused

theorem takes_of_locate {location : Location} (found : disk.locate path = .ok location) :
    Takes path := by
  refine Classical.byContradiction fun refused => ?_
  obtain ⟨cause, error⟩ := locate_of_not_takes refused
  exact nomatch found.symm.trans (error disk)

theorem Takes.directory {directory name : String} (takes : Takes (Path.join directory name))
    (relative : name.toList.head? ≠ some '/') (notEmpty : directory ≠ "") : Takes directory := by
  obtain ⟨noNul, short, -⟩ := takes
  rcases Path.join_cases directory relative with ⟨empty, -⟩ | ⟨front, shape, joined⟩
  · exact absurd empty notEmpty
  · rw [joined] at noNul short
    rcases shape with rfl | rfl
    · refine ⟨fun mem => noNul (by simp [mem]), ?_, notEmpty⟩
      simp only [String.utf8ByteSize_append] at short
      omega
    · refine ⟨fun mem => noNul (by simpa using .inl (by simpa using mem)), ?_, notEmpty⟩
      simp only [String.utf8ByteSize_append] at short ⊢
      omega

theorem locate_entry {location : Location} (found : disk.locate path = .ok location) :
    location.entry = disk.tree.at? location.names := by
  rw [locate_of_takes (takes_of_locate found)] at found
  exact locateFrom_entry found

theorem locate_mono {location : Location} (found : disk.locate path = .ok location) (tree : Entry)
    (keeps : ∀ names, disk.tree.IsDirAt names → tree.IsDirAt names) :
    { disk with tree }.locate path = .ok ⟨location.names, tree.at? location.names⟩ := by
  have takes := takes_of_locate found
  rw [locate_of_takes takes] at found ⊢
  exact locateFrom_mono keeps found

/-- A path to something that is no directory ends with a name of a directory. -/
theorem standing_of_locate {location : Location} (found : disk.locate path = .ok location)
    (noDir : ¬ disk.tree.IsDirAt location.names) :
    ∃ parent name, location.names = parent ++ [name] ∧ disk.tree.IsDirAt parent := by
  rw [locate_of_takes (takes_of_locate found)] at found
  exact (locateFrom_standing (Path.segments_ne_nil path) found).resolve_left noDir

theorem getLast?_of_locate {location : Location} (found : disk.locate path = .ok location)
    (noDir : ¬ disk.tree.IsDirAt location.names) : path.toList.getLast? ≠ some '/' := by
  intro ends
  obtain ⟨front, segments⟩ := Path.segments_of_getLast? ends
  rw [locate_of_takes (takes_of_locate found), segments] at found
  exact noDir (locateFrom_slash found).2

/-- An entry of a directory stands under its own name at the end of the path to it. -/
theorem locate_join {location : Location} (found : disk.locate path = .ok location)
    (dir : disk.tree.IsDirAt location.names) {name : String} (entry : Path.IsEntry name)
    (takes : Takes (Path.join path name)) :
    disk.locate (Path.join path name) =
      .ok ⟨location.names ++ [name], disk.tree.at? (location.names ++ [name])⟩ := by
  have takesPath := takes_of_locate found
  rw [locate_of_takes takesPath] at found
  rw [locate_of_takes takes]
  rcases Path.join_cases path entry.relative with ⟨empty, -⟩ | ⟨front, shape, joined⟩
  · exact absurd empty takesPath.notEmpty
  have segments : Path.segments (Path.join path name) = Path.segments front ++ [name] := by
    rw [joined, Path.segments_append, entry.whole]
  have starts : disk.start (Path.join path name) = disk.start path := by
    have begins : (Path.join path name).toList.head? = path.toList.head? := by
      rw [joined]
      rcases shape with rfl | rfl
      · cases shape : path.toList with
        | nil => exact absurd (by simpa using shape) takesPath.notEmpty
        | cons c rest => simp [shape]
      · simp [List.head?_append]
    rw [start, begins, start]
  have same : locateFrom disk.tree (disk.start path) (Path.segments front) = .ok location := by
    rcases shape with rfl | rfl
    · exact found
    · exact (locateFrom_slash (Path.segments_slash front ▸ found)).1
  rw [starts, segments, locateFrom_append, same]
  exact locateFrom_name dir entry.isName entry.short

theorem located_of_isDir (dir : disk.isDir path = true) :
    ∃ location, disk.locate path = .ok location ∧ disk.tree.IsDirAt location.names := by
  unfold isDir find at dir
  cases found : disk.locate path with
  | error cause =>
    rw [found] at dir
    exact nomatch dir
  | ok location =>
    refine ⟨location, rfl, Entry.isDirAt_iff.mpr ?_⟩
    rw [found] at dir
    rw [← locate_entry found]
    dsimp only at dir
    cases entry : location.entry with
    | none =>
      rw [entry] at dir
      exact nomatch dir
    | some entry' =>
      rw [entry] at dir
      cases entry' with
      | file data => exact nomatch dir
      | dir entries => exact ⟨entries, rfl⟩

/-- Paths without a hidden name lead to the same names on two disks that differ below it only. -/
theorem locate_sameBut {other : Disk} {hidden : String} (here : other.here = disk.here)
    (same : Entry.SameBut hidden disk.tree other.tree) (outside : hidden ∉ disk.here)
    (without : hidden ∉ Path.segments path) :
    (∃ cause, disk.locate path = .error cause ∧ other.locate path = .error cause) ∨
    ∃ names, hidden ∉ names ∧ disk.locate path = .ok ⟨names, disk.tree.at? names⟩ ∧
      other.locate path = .ok ⟨names, other.tree.at? names⟩ := by
  by_cases takes : Takes path
  · have start : hidden ∉ disk.start path := by
      unfold Disk.start
      split
      · exact List.not_mem_nil
      · simpa using outside
    have starts : other.start path = disk.start path := by rw [Disk.start, here, Disk.start]
    rw [locate_of_takes takes, locate_of_takes takes, starts]
    exact locateFrom_sameBut same start without
  · obtain ⟨cause, error⟩ := locate_of_not_takes takes
    exact .inl ⟨cause, error disk, error other⟩

/-! ## Reading -/

theorem readBytes_of_locate {location : Location} (found : disk.locate path = .ok location) :
    disk.readBytes path =
      match disk.tree.seen location.names with
      | none => .error .noEntry
      | some none => .error .isDirectory
      | some (some data) => .ok data := by
  have entry := locate_entry found
  unfold readBytes find
  rw [found, Entry.seen, ← entry]
  dsimp only
  cases location.entry with
  | none => rfl
  | some entry => cases entry <;> rfl

/-- What can be read stands at the end of its path. -/
theorem located_of_readText {text : String} (read : disk.readText path = .ok text) :
    ∃ location data, disk.locate path = .ok location ∧
      disk.tree.seen location.names = some (some data) := by
  unfold readText at read
  cases found : disk.locate path with
  | error cause =>
    have error : disk.readBytes path = .error cause := by rw [readBytes, find, found]
    rw [error] at read
    exact nomatch read
  | ok location =>
    rw [readBytes_of_locate found] at read
    cases seen : disk.tree.seen location.names with
    | none => exact nomatch (seen ▸ read)
    | some told =>
      cases told with
      | none => exact nomatch (seen ▸ read)
      | some data => exact ⟨location, data, rfl, seen⟩

theorem has_of_readText {text : String} (read : disk.readText path = .ok text) :
    disk.has path = true := by
  rw [has]
  cases found : disk.find path with
  | error cause =>
    have error : disk.readBytes path = .error cause := by rw [readBytes, found]
    rw [readText, error] at read
    exact nomatch read
  | ok entry => rfl

theorem readText_sameBut {other : Disk} {hidden : String} (here : other.here = disk.here)
    (same : Entry.SameBut hidden disk.tree other.tree) (outside : hidden ∉ disk.here)
    (without : hidden ∉ Path.segments path) : disk.readText path = other.readText path := by
  have bytes : disk.readBytes path = other.readBytes path := by
    rcases locate_sameBut here same outside without with
      ⟨cause, error, error'⟩ | ⟨names, apart, found, found'⟩
    · rw [readBytes, find, error, readBytes, find, error']
    · rw [readBytes_of_locate found, readBytes_of_locate found', same names apart]
  rw [readText, readText, bytes]

/-! ## Writing -/

theorem fromUTF8?_toUTF8 (text : String) : String.fromUTF8? text.toUTF8 = some text :=
  dif_pos text.isValidUTF8

theorem writeText_of_locate {location : Location} (found : disk.locate path = .ok location)
    (noDir : ¬ disk.tree.IsDirAt location.names) (content : String) :
    disk.writeText path content =
      .ok { disk with tree := disk.tree.put location.names (.file content.toUTF8) } := by
  have ends := getLast?_of_locate found noDir
  have entry := locate_entry found
  obtain ⟨names, there⟩ := location
  simp only at entry noDir
  unfold writeText
  rw [Path.withoutFinalSlashes_eq ends, found]
  split
  · next error => exact nomatch error
  · next dir =>
    obtain ⟨-, rfl⟩ := Location.mk.inj (Except.ok.inj dir)
    exact absurd (Entry.isDirAt_iff.mpr ⟨_, entry.symm⟩) noDir
  · next same =>
    obtain ⟨rfl, -⟩ := Location.mk.inj (Except.ok.inj same)
    rw [if_neg (by simpa using ends)]

theorem located_of_writeText {content : String} {after : Disk}
    (written : disk.writeText path content = .ok after) :
    ∃ location, disk.locate path = .ok location ∧ ¬ disk.tree.IsDirAt location.names := by
  unfold writeText at written
  split at written
  · exact nomatch written
  · exact nomatch written
  · next names entry noDir found =>
    split at written
    · exact nomatch written
    · next ends =>
      rw [Path.withoutFinalSlashes_eq (by simpa using ends)] at found
      refine ⟨_, found, fun dir => ?_⟩
      obtain ⟨entries, there⟩ := Entry.isDirAt_iff.mp dir
      exact noDir entries ((locate_entry found).trans there)

theorem readText_writeText {location : Location} (found : disk.locate path = .ok location)
    (noDir : ¬ disk.tree.IsDirAt location.names) (content : String) :
    { disk with tree := disk.tree.put location.names (.file content.toUTF8) }.readText path =
      .ok content := by
  obtain ⟨parent, name, names, there⟩ := standing_of_locate found noDir
  have again := locate_mono found (disk.tree.put location.names (.file content.toUTF8))
    fun other dir => by
      rw [names] at noDir ⊢
      exact Entry.isDirAt_put there _ noDir dir
  rw [readText, readBytes_of_locate again, Entry.seen, Entry.at?_put]
  simp only [Option.map_some, Entry.data?, fromUTF8?_toUTF8]

/-! ## Making directories -/

theorem makeDirs_of_locate {location : Location} (found : disk.locate path = .ok location) :
    disk.makeDirs path =
      match location.entry with
      | none => .ok { disk with tree := disk.tree.put location.names (.dir []) }
      | some (.dir _) => .ok disk
      | some (.file _) => .error .alreadyThere := by
  obtain ⟨count, length⟩ : ∃ count, (Path.segments path).length = count + 1 :=
    Nat.exists_eq_succ_of_ne_zero (mt List.length_eq_zero_iff.mp (Path.segments_ne_nil path))
  rw [makeDirs, length, makeDirsAux, Path.joinWith_segments]
  obtain ⟨names, entry⟩ := location
  have others : disk.isDir path = entry.any Entry.isDir := by
    rw [isDir, find, found]
    cases entry <;> rfl
  cases entry with
  | none => simp [makeDir, found]
  | some entry =>
    have refused : disk.makeDir path = .error .alreadyThere := by simp [makeDir, found]
    have exists_ : (IoError.alreadyThere.kind == .notFound) = false := rfl
    simp only [refused, exists_, others]
    cases entry <;> rfl

end Disk

end ChangeImpact
