import ChangeImpact.Proofs.Disk.Segments
import ChangeImpact.Proofs.Disk.Tree

/-!
# Looking paths up

Where a path leads, part by part. Two disks that differ below directories of one hidden name only
cannot be told apart by paths without this name.
-/

namespace ChangeImpact

namespace Disk

open Entry (IsDirAt isDirAt_iff)

/-! ## Paths part by part -/

theorem locateFrom_entry {tree : Entry} {above segments : List String} {location : Location}
    (found : locateFrom tree above segments = .ok location) :
    location.entry = tree.at? location.names := by
  induction segments generalizing above with
  | nil =>
    obtain rfl := Except.ok.inj found
    rfl
  | cons segment rest ih =>
    unfold locateFrom at found
    split at found
    · exact nomatch found
    · exact nomatch found
    · split at found
      · exact ih found
      · split at found
        · exact ih found
        · split at found
          · exact nomatch found
          · exact ih found

theorem locateFrom_append (tree : Entry) (above front back : List String) :
    locateFrom tree above (front ++ back) =
      (locateFrom tree above front).bind fun location =>
        locateFrom tree location.names.reverse back := by
  induction front generalizing above with
  | nil => simp [locateFrom, Except.bind]
  | cons segment front ih =>
    rw [List.cons_append, locateFrom, locateFrom]
    split
    · rfl
    · rfl
    · split
      · exact ih _
      · split
        · exact ih _
        · split
          · rfl
          · exact ih _

theorem locateFrom_cons (tree : Entry) (above : List String) (segment : String)
    (rest : List String) :
    locateFrom tree above (segment :: rest) =
      match tree.seen above.reverse with
      | none => .error .noEntry
      | some (some _) => .error .notDirectory
      | some none =>
        if segment == "" || segment == "." then locateFrom tree above rest
        else if segment == ".." then locateFrom tree above.tail rest
        else if 255 < segment.utf8ByteSize then .error .nameTooLong
        else locateFrom tree (segment :: above) rest := by
  rw [locateFrom, Entry.seen]
  split <;> simp_all [Entry.data?]

/-- A path with a slash at its end leads where it leads without, and only to a directory. -/
theorem locateFrom_slash {tree : Entry} {above segments : List String} {location : Location}
    (found : locateFrom tree above (segments ++ [""]) = .ok location) :
    locateFrom tree above segments = .ok location ∧ tree.IsDirAt location.names := by
  rw [locateFrom_append] at found
  cases before : locateFrom tree above segments with
  | error cause =>
    rw [before] at found
    exact nomatch found
  | ok middle =>
    rw [before, Except.bind, locateFrom_cons, List.reverse_reverse] at found
    split at found
    · exact nomatch found
    · exact nomatch found
    · next dir =>
      have same : middle = location := by
        simpa [locateFrom, ← locateFrom_entry before] using Except.ok.inj found
      exact ⟨congrArg _ same, same ▸ dir⟩

theorem locateFrom_name {tree : Entry} {names : List String} (there : tree.IsDirAt names)
    {name : String} (isName : Path.isName name = true) (short : name.utf8ByteSize ≤ 255) :
    locateFrom tree names.reverse [name] = .ok ⟨names ++ [name], tree.at? (names ++ [name])⟩ := by
  obtain ⟨entries, found⟩ := isDirAt_iff.mp there
  simp only [Path.isName, Bool.and_eq_true, bne_iff_ne, ne_eq] at isName
  obtain ⟨⟨notEmpty, notHere⟩, notUp⟩ := isName
  simp [locateFrom, found, notEmpty, notHere, notUp, Nat.not_lt.mpr short]

/-- A path that leads somewhere leads into a directory, or to a name in one. -/
theorem locateFrom_standing {tree : Entry} {above segments : List String} {location : Location}
    (some : segments ≠ []) (found : locateFrom tree above segments = .ok location) :
    tree.IsDirAt location.names ∨
      ∃ parent name, location.names = parent ++ [name] ∧ tree.IsDirAt parent := by
  induction segments generalizing above with
  | nil => exact absurd rfl some
  | cons segment rest ih =>
    unfold locateFrom at found
    split at found
    · exact nomatch found
    · exact nomatch found
    · next entries here =>
      have there : tree.IsDirAt above.reverse := isDirAt_iff.mpr ⟨entries, here⟩
      cases rest with
      | cons next rest =>
        have later : ∀ {above}, locateFrom tree above (next :: rest) = .ok location → _ :=
          ih (List.cons_ne_nil _ _)
        split at found
        · exact later found
        · split at found
          · exact later found
          · split at found
            · exact nomatch found
            · exact later found
      | nil =>
        split at found
        · obtain rfl := Except.ok.inj found
          exact .inl there
        · split at found
          · obtain rfl := Except.ok.inj found
            have up : above.reverse = above.tail.reverse ++ above.head?.toList := by
              cases above <;> simp
            exact .inl (up ▸ there).of_append
          · split at found
            · exact nomatch found
            · obtain rfl := Except.ok.inj found
              exact .inr ⟨above.reverse, segment, List.reverse_cons, there⟩

/-- Where a path leads stays the same while no directory goes. -/
theorem locateFrom_mono {tree after : Entry}
    (keeps : ∀ names, tree.IsDirAt names → after.IsDirAt names) {above segments : List String}
    {location : Location} (found : locateFrom tree above segments = .ok location) :
    locateFrom after above segments = .ok ⟨location.names, after.at? location.names⟩ := by
  induction segments generalizing above with
  | nil =>
    obtain rfl := Except.ok.inj found
    rfl
  | cons segment rest ih =>
    rw [locateFrom_cons] at found ⊢
    split at found
    · exact nomatch found
    · exact nomatch found
    · next dir =>
      rw [keeps _ dir]
      split at found
      · next stays => simpa [stays] using ih found
      · next moves =>
        split at found
        · next up => simpa [moves, up] using ih found
        · next down =>
          split at found
          · exact nomatch found
          · next short => simpa [moves, down, short] using ih found

/-- Paths without a hidden name lead to the same names in two trees that differ below it only. -/
theorem locateFrom_sameBut {hidden : String} {first second : Entry}
    (same : Entry.SameBut hidden first second) {above segments : List String}
    (outside : hidden ∉ above) (without : hidden ∉ segments) :
    (∃ cause, locateFrom first above segments = .error cause ∧
      locateFrom second above segments = .error cause) ∨
    ∃ names, hidden ∉ names ∧ locateFrom first above segments = .ok ⟨names, first.at? names⟩ ∧
      locateFrom second above segments = .ok ⟨names, second.at? names⟩ := by
  induction segments generalizing above with
  | nil => exact .inr ⟨above.reverse, by simpa using outside, rfl, rfl⟩
  | cons segment rest ih =>
    obtain ⟨differs, without⟩ := not_or.mp (mt List.mem_cons.mpr without)
    rw [locateFrom_cons, locateFrom_cons, ← same above.reverse (by simpa using outside)]
    split
    · exact .inl ⟨_, rfl, rfl⟩
    · exact .inl ⟨_, rfl, rfl⟩
    · split
      · exact ih outside without
      · split
        · exact ih (fun mem => outside (List.mem_of_mem_tail mem)) without
        · split
          · exact .inl ⟨_, rfl, rfl⟩
          · exact ih (by simpa using ⟨differs, outside⟩) without

end Disk

end ChangeImpact
