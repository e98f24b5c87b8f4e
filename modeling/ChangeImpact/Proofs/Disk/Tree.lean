import ChangeImpact.Disk

/-!
# Trees of files

What stands at the end of a list of names after something was put into a tree: the new entry at its
own names and below, and elsewhere what stood there before.
-/

namespace ChangeImpact

namespace Entry

/-- What can be told of an entry without entering it: the data of a file, none for a directory. -/
def data? : Entry → Option ByteArray
  | file data => some data
  | dir _ => none

def seen (tree : Entry) (names : List String) : Option (Option ByteArray) :=
  (tree.at? names).map data?

def IsDirAt (tree : Entry) (names : List String) : Prop :=
  tree.seen names = some none

theorem isDirAt_iff {tree : Entry} {names : List String} :
    tree.IsDirAt names ↔ ∃ entries, tree.at? names = some (dir entries) := by
  unfold IsDirAt seen
  constructor
  · intro seen
    obtain ⟨entry, found, none⟩ := Option.map_eq_some_iff.mp seen
    cases entry with
    | file data => exact nomatch none
    | dir entries => exact ⟨entries, found⟩
  · rintro ⟨entries, found⟩
    rw [found]
    rfl

theorem at?_append (tree : Entry) (front back : List String) :
    tree.at? (front ++ back) = (tree.at? front).bind (at? · back) := by
  induction front generalizing tree with
  | nil => rfl
  | cons name front ih =>
    rw [List.cons_append, at?, at?, Option.bind_assoc]
    congr
    funext child
    exact ih child

/-- On the way to what stands in a tree there are directories. -/
theorem isDirAt_of_at? {tree entry : Entry} {front back : List String} {name : String}
    (found : tree.at? (front ++ name :: back) = some entry) : tree.IsDirAt front := by
  rw [at?_append] at found
  obtain ⟨middle, there, below⟩ := Option.bind_eq_some_iff.mp found
  cases middle with
  | file data => exact nomatch below
  | dir entries => exact isDirAt_iff.mpr ⟨entries, there⟩

theorem IsDirAt.of_append {tree : Entry} {front back : List String}
    (there : tree.IsDirAt (front ++ back)) : tree.IsDirAt front := by
  cases back with
  | nil => rwa [List.append_nil] at there
  | cons name back =>
    obtain ⟨entries, found⟩ := isDirAt_iff.mp there
    exact isDirAt_of_at? found

/-! ## Putting an entry into a tree -/

theorem lookup_setEntry (name other : String) (entry : Entry) (entries : List (String × Entry)) :
    (setEntry name entry entries).lookup other =
      if other = name then some entry else entries.lookup other := by
  induction entries with
  | nil =>
    by_cases hit : other = name
    · simp [setEntry, hit]
    · have differs : (other == name) = false := by simpa using hit
      simp [setEntry, List.lookup_cons, hit, differs]
  | cons first rest ih =>
    obtain ⟨here, old⟩ := first
    by_cases same : here = name
    · subst same
      by_cases hit : other = here
      · simp [setEntry, hit]
      · have differs : (other == here) = false := by simpa using hit
        simp [setEntry, List.lookup_cons, hit, differs]
    · by_cases hit : other = here
      · subst hit
        simp [setEntry, same]
      · have differs : (other == here) = false := by simpa using hit
        simp [setEntry, same, List.lookup_cons, differs, ih]

theorem child?_put_cons (tree entry : Entry) (name other : String) (rest : List String) :
    (put tree (name :: rest) entry).child? other =
      if other = name then some (put ((tree.child? name).getD (dir [])) rest entry)
      else tree.child? other := by
  rw [put, child?, entries, lookup_setEntry]
  rfl

/-- Below its own names stands the new entry. -/
theorem at?_put_append (tree entry : Entry) (names more : List String) :
    (put tree names entry).at? (names ++ more) = entry.at? more := by
  induction names generalizing tree with
  | nil => rfl
  | cons name rest ih =>
    rw [List.cons_append, at?, child?_put_cons, if_pos rfl, Option.bind_some]
    exact ih _

theorem at?_put (tree entry : Entry) (names : List String) :
    (put tree names entry).at? names = some entry := by
  have own := at?_put_append tree entry names []
  rwa [List.append_nil] at own

/-- An entry put into a directory that is there changes nothing that is told of other names. -/
theorem seen_put {tree : Entry} {parent : List String} (there : tree.IsDirAt parent) (entry : Entry)
    {name : String} {other : List String} (apart : ¬ parent ++ [name] <+: other) :
    (put tree (parent ++ [name]) entry).seen other = tree.seen other := by
  induction parent generalizing tree other with
  | nil =>
    cases other with
    | nil =>
      obtain ⟨entries, rfl⟩ : ∃ entries, tree = dir entries := by
        obtain ⟨entries, found⟩ := isDirAt_iff.mp there
        exact ⟨entries, Option.some.inj found⟩
      rfl
    | cons first rest =>
      have differ : first ≠ name := fun same => apart (same ▸ by simp)
      rw [List.nil_append, seen, seen, at?, child?_put_cons, if_neg differ]
      rfl
  | cons first parent ih =>
    obtain ⟨child, found⟩ : ∃ child, tree.child? first = some child := by
      obtain ⟨entries, at_⟩ := isDirAt_iff.mp there
      rw [at?] at at_
      obtain ⟨child, found, -⟩ := Option.bind_eq_some_iff.mp at_
      exact ⟨child, found⟩
    have below : child.IsDirAt parent := by
      rwa [IsDirAt, seen, at?, found, Option.bind_some] at there
    cases other with
    | nil =>
      obtain ⟨entries, rfl⟩ : ∃ entries, tree = dir entries := by
        cases tree with
        | file data => exact nomatch found
        | dir entries => exact ⟨entries, rfl⟩
      rfl
    | cons here rest =>
      rw [List.cons_append, seen, seen, at?, at?, child?_put_cons]
      by_cases same : here = first
      · subst same
        have inner : ¬ parent ++ [name] <+: rest :=
          fun starts => apart ((List.prefix_cons_inj here).mpr starts)
        rw [if_pos rfl, found, Option.getD_some, Option.bind_some, Option.bind_some]
        exact ih below inner
      · rw [if_neg same]

/-- Putting an entry where no directory stands keeps the directories of a tree. -/
theorem isDirAt_put {tree : Entry} {parent names : List String} {name : String}
    (there : tree.IsDirAt parent) (entry : Entry) (replaced : ¬ tree.IsDirAt (parent ++ [name]))
    (dir : tree.IsDirAt names) : (put tree (parent ++ [name]) entry).IsDirAt names := by
  have apart : ¬ parent ++ [name] <+: names := by
    rintro ⟨more, rfl⟩
    exact replaced dir.of_append
  rwa [IsDirAt, seen_put there entry apart]

/-! ## Trees that differ below a hidden name -/

/-- All that is told of names without a hidden one is told of both trees. -/
def SameBut (hidden : String) (first second : Entry) : Prop :=
  ∀ names, hidden ∉ names → first.seen names = second.seen names

theorem SameBut.refl (hidden : String) (tree : Entry) : SameBut hidden tree tree :=
  fun _ _ => rfl

theorem SameBut.symm {hidden : String} {first second : Entry} (same : SameBut hidden first second) :
    SameBut hidden second first :=
  fun names without => (same names without).symm

theorem SameBut.trans {hidden : String} {first second third : Entry}
    (same : SameBut hidden first second) (next : SameBut hidden second third) :
    SameBut hidden first third :=
  fun names without => (same names without).trans (next names without)

theorem SameBut.isDirAt {hidden : String} {first second : Entry}
    (same : SameBut hidden first second) {names : List String} (without : hidden ∉ names)
    (dir : first.IsDirAt names) :
    second.IsDirAt names := by
  rwa [IsDirAt, ← same names without]

theorem SameBut.put {hidden : String} {first second : Entry} (same : SameBut hidden first second)
    {parent : List String} (there : first.IsDirAt parent) (there' : second.IsDirAt parent)
    (name : String) (entry : Entry) :
    SameBut hidden (first.put (parent ++ [name]) entry) (second.put (parent ++ [name]) entry) := by
  intro names without
  by_cases below : parent ++ [name] <+: names
  · obtain ⟨more, rfl⟩ := below
    rw [seen, seen, at?_put_append, at?_put_append]
  · rw [seen_put there entry below, seen_put there' entry below]
    exact same names without

theorem SameBut.put_hidden {hidden : String} {tree : Entry} {parent : List String}
    (there : tree.IsDirAt parent) {name : String} (under : hidden ∈ parent ++ [name])
    (entry : Entry) : SameBut hidden tree (tree.put (parent ++ [name]) entry) :=
  fun _ without => (seen_put there entry fun starts => without (starts.subset under)).symm

end Entry

end ChangeImpact
