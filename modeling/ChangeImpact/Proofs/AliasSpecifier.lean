import ChangeImpact.Proofs.Specifier

/-!
# Specifiers with the alias prefix

A specifier with the alias prefix is walked from the alias root. The walk goes up by leaving the
last segments of the root and down by adding names, and it never looks at the segments it keeps: a
`.` or `..` that is written in the root stands in the path too. So every path is the identifier of
its own file exactly if the root has no such segment, or no specifier is read with the alias.
-/

namespace ChangeImpact

theorem Path.isCanonical_iff {path : String} :
    IsCanonical path ↔ path ≠ "" ∧ NodeId.ofPath path = path := by
  constructor
  · rintro ⟨some, named⟩
    refine ⟨some, ?_⟩
    rw [NodeId.ofPath, names, List.filter_eq_self.mpr named, joinWith_segments]
  · rintro ⟨some, same⟩
    rw [← same]
    refine isCanonical_joinWith (fun none => some ?_) fun name mem => ?_
    · rw [← same, NodeId.ofPath, none]
      rfl
    · obtain ⟨segment, named⟩ := List.mem_filter.mp mem
      exact ⟨named, slash_not_mem_of_mem_segments segment⟩

theorem Text.startsWithWord_concat {c : Char} {word : List Char} (absent : c ∉ word)
    (text : List Char) : startsWithWord word (text ++ [c]) = startsWithWord word text := by
  unfold startsWithWord
  induction word generalizing text with
  | nil => rfl
  | cons w word ih =>
    rw [List.mem_cons, not_or] at absent
    cases text with
    | nil => simp [dropWord?, Ne.symm absent.1]
    | cons d text =>
      by_cases same : w = d
      · simp [dropWord?, same, ih absent.2]
      · simp [dropWord?, same]

theorem Text.string_eq_of_dropWord? {word text : String} {rest : List Char}
    (dropped : dropWord? word.toList text.toList = some rest) :
    text = word ++ String.ofList rest := by
  refine String.toList_inj.mp ?_
  rw [eq_append_of_dropWord? dropped, String.toList_append, String.toList_ofList]

namespace ImportResolver

theorem isRelative_iff {specifier : String} :
    isRelative specifier = true ↔ IsRelative specifier := by
  refine ⟨fun relative => ?_, IsRelative.isRelative⟩
  rw [isRelative, Bool.or_eq_true] at relative
  rcases relative with starts | starts
  · obtain ⟨rest, dropped⟩ := Option.isSome_iff_exists.mp starts
    exact ⟨_, .inl (Text.string_eq_of_dropWord? dropped)⟩
  · obtain ⟨rest, dropped⟩ := Option.isSome_iff_exists.mp starts
    exact ⟨_, .inr (Text.string_eq_of_dropWord? dropped)⟩

theorem IsRelative.append {specifier : String} (relative : IsRelative specifier) (more : String) :
    IsRelative (specifier ++ more) := by
  obtain ⟨rest, rfl | rfl⟩ := relative
  · exact ⟨rest ++ more, .inl String.append_assoc⟩
  · exact ⟨rest ++ more, .inr String.append_assoc⟩

/-! ## Paths from a directory -/

def startingFrom (directory : String) : List String :=
  (Path.segments directory).filter (· != "")

theorem slash_not_mem_of_mem_startingFrom {directory segment : String}
    (mem : segment ∈ startingFrom directory) : '/' ∉ segment.toList :=
  Path.slash_not_mem_of_mem_segments (List.mem_filter.mp mem).1

/-- A path that is reached keeps the first segments of the directory as they are and adds names. -/
theorem exists_of_reach?_eq_some {directory relative path : String}
    (reached : reach? directory relative = some path) :
    ∃ kept added, kept <+: startingFrom directory ∧ kept ++ added ≠ [] ∧
      path = Text.joinWith "/" (kept ++ added) ∧
      ∀ name ∈ added, Path.isName name = true ∧ '/' ∉ name.toList := by
  unfold reach? at reached
  split at reached
  · simp at reached
  · simp at reached
  · next names some walked =>
    obtain ⟨added, kept, rfl, suffix, named⟩ := exists_of_walk walked
    refine ⟨kept.reverse, added.reverse, ?_, ?_, ?_, fun name mem => ?_⟩
    · rwa [← List.reverse_suffix, List.reverse_reverse]
    · rw [← List.reverse_append]
      exact mt List.reverse_eq_nil_iff.mp some
    · rw [← List.reverse_append]
      exact (Option.some.inj reached).symm
    · obtain ⟨segment, isName⟩ := named name (List.mem_reverse.mp mem)
      exact ⟨isName, Path.slash_not_mem_of_mem_segments segment⟩

/-- Nothing but a name is added to the directory by a specifier that is a name. -/
theorem reach?_name {name : String} (isName : Path.isName name = true)
    (bare : '/' ∉ name.toList) (directory : String) :
    reach? directory name = some (Text.joinWith "/" (startingFrom directory ++ [name])) := by
  have named : ∀ other ∈ [name], Path.isName other = true := by simpa using isName
  have walked := walk_names named (startingFrom directory).reverse
  rw [reach?, Path.segments_of_slash_not_mem bare]
  simp only [startingFrom] at walked ⊢
  rw [walked]
  simp

/-! ## Canonical paths -/

/-- No segment of the alias root stands for a directory without being its name. -/
def PlainRoot (resolver : ImportResolver) : Prop :=
  ∀ segment ∈ Path.segments resolver.aliasRoot, segment ≠ "." ∧ segment ≠ ".."

/-- Some specifiers are read with the alias: its prefix is not empty, and what begins with it is not
read as relative. -/
def UsesAlias (resolver : ImportResolver) : Prop :=
  resolver.aliasPrefix ≠ "" ∧ ¬ IsRelative resolver.aliasPrefix

/-- Every path that a specifier stands for is the identifier of its own file. -/
def YieldsCanonical (resolver : ImportResolver) : Prop :=
  ∀ specifier containing, Path.IsCanonical containing →
    ∀ path, resolver.basePath? specifier containing = some path →
      NodeId.ofPath path = path ∧ Path.IsCanonical path

variable {resolver : ImportResolver}

theorem PlainRoot.isName (plain : resolver.PlainRoot) {segment : String}
    (mem : segment ∈ startingFrom resolver.aliasRoot) : Path.isName segment = true := by
  obtain ⟨listed, some⟩ := List.mem_filter.mp mem
  obtain ⟨noDot, noUp⟩ := plain segment listed
  simp_all [Path.isName]

theorem PlainRoot.isCanonical (plain : resolver.PlainRoot) {relative path : String}
    (reached : reach? resolver.aliasRoot relative = some path) : Path.IsCanonical path := by
  obtain ⟨kept, added, front, some, rfl, named⟩ := exists_of_reach?_eq_some reached
  refine Path.isCanonical_joinWith some fun name mem => ?_
  rcases List.mem_append.mp mem with mem | mem
  · have listed := front.subset mem
    exact ⟨plain.isName listed, slash_not_mem_of_mem_startingFrom listed⟩
  · exact named name mem

/-- A path comes from the directory of the file, or from the root of an alias in use. -/
theorem basePath?_eq_some_cases {specifier containing path : String}
    (found : resolver.basePath? specifier containing = some path) :
    IsRelative specifier ∨
      resolver.UsesAlias ∧ ∃ rest, reach? resolver.aliasRoot rest = some path := by
  unfold basePath? at found
  split at found
  · next relative => exact .inl (isRelative_iff.mp relative)
  · next absolute =>
    split at found
    · simp at found
    · next used =>
      split at found
      · next rest dropped =>
        refine .inr ⟨⟨by simpa using used, fun relative => absolute ?_⟩, _, found⟩
        rw [isRelative_iff, Text.string_eq_of_dropWord? dropped]
        exact relative.append _
      · simp at found

/-- A name behind the prefix of an alias in use stands for the file of this name in the root. -/
theorem UsesAlias.basePath?_eq (uses : resolver.UsesAlias) (containing : String) :
    resolver.basePath? (resolver.aliasPrefix ++ "x") containing =
      some (Text.joinWith "/" (startingFrom resolver.aliasRoot ++ ["x"])) := by
  obtain ⟨some, absolute⟩ := uses
  have text : (resolver.aliasPrefix ++ "x").toList = resolver.aliasPrefix.toList ++ ['x'] := by simp
  have notRelative : isRelative (resolver.aliasPrefix ++ "x") = false := by
    rw [← isRelative_iff, Bool.not_eq_true] at absolute
    rw [isRelative, text, Text.startsWithWord_concat (by decide),
      Text.startsWithWord_concat (by decide)]
    exact absolute
  have dropped : Text.dropWord? resolver.aliasPrefix.toList
      (resolver.aliasPrefix ++ "x").toList = Option.some ['x'] := by
    rw [text, Text.dropWord?_append]
  rw [basePath?, notRelative, if_neg Bool.false_ne_true, if_neg (by simpa using some), dropped]
  exact reach?_name (by decide) (by decide) resolver.aliasRoot

/-- The paths of all specifiers are canonical exactly if the root of an alias in use is plain. -/
theorem yieldsCanonical_iff (resolver : ImportResolver) :
    resolver.YieldsCanonical ↔ (resolver.UsesAlias → resolver.PlainRoot) := by
  constructor
  · intro yields uses segment mem
    have canonical : Path.IsCanonical "x" := by decide
    obtain ⟨-, path⟩ := yields _ "x" canonical _ (uses.basePath?_eq "x")
    have whole : Path.segments
        (Text.joinWith "/" (startingFrom resolver.aliasRoot ++ ["x"])) =
          startingFrom resolver.aliasRoot ++ ["x"] := by
      refine Path.segments_joinWith (by simp) fun name mem => ?_
      rcases List.mem_append.mp mem with mem | mem
      · exact slash_not_mem_of_mem_startingFrom mem
      · obtain rfl := List.mem_singleton.mp mem
        decide
    by_cases empty : segment = ""
    · rw [empty]
      decide
    · have listed : segment ∈ startingFrom resolver.aliasRoot :=
        List.mem_filter.mpr ⟨mem, by simpa using empty⟩
      have inside : segment ∈ startingFrom resolver.aliasRoot ++ ["x"] :=
        List.mem_append_left _ listed
      rw [← whole] at inside
      have named := path.2 segment inside
      simp_all [Path.isName]
  · intro plain specifier containing canonical path found
    have whole : Path.IsCanonical path := by
      rcases basePath?_eq_some_cases found with relative | ⟨uses, rest, reached⟩
      · exact (eq_of_basePath?_eq_some relative canonical found).2
      · exact (plain uses).isCanonical reached
    exact ⟨(Path.isCanonical_iff.mp whole).2, whole⟩

/-- `./src` is a way to write the directory `src`, and the path of a file in it begins with the dot:
it is not the path that the file is known by. -/
theorem basePath?_keeps_dot_of_root :
    let resolver : ImportResolver := ⟨"@/", "./src"⟩
    NodeId.ofPath resolver.aliasRoot = "src" ∧ Path.IsCanonical "src/b.ts" ∧
      resolver.basePath? "@/a" "src/b.ts" = some "./src/a" ∧
      NodeId.ofPath "./src/a" = "src/a" ∧ ¬ Path.IsCanonical "./src/a" ∧
      ¬ resolver.YieldsCanonical := by
  intro resolver
  have containing : Path.IsCanonical "src/b.ts" := by decide
  have found : resolver.basePath? "@/a" "src/b.ts" = some "./src/a" := by decide
  have dotted : ¬ Path.IsCanonical "./src/a" := by decide
  exact ⟨by decide, containing, found, by decide, dotted,
    fun yields => dotted (yields "@/a" "src/b.ts" containing "./src/a" found).2⟩

end ImportResolver

end ChangeImpact
