import ChangeImpact.Specifier
import ChangeImpact.Proofs.Disk.Segments

/-!
# Relative specifiers

A relative specifier is walked from the directory of the importing file. The walk fails just when,
at some point of the specifier, more segments went up than there were directories and names to
leave, and otherwise it ends where the same segments lead when looked up on the disk. So every file
of a graph has a specifier in every other one: up to the root and down again. One more step up has
left the root, whatever follows it.
-/

namespace ChangeImpact

namespace ImportResolver

/-! ## What a relative specifier stands for -/

/-- A specifier that begins with a step from the directory of the file it stands in. -/
def IsRelative (specifier : String) : Prop :=
  ∃ rest, specifier = "./" ++ rest ∨ specifier = "../" ++ rest

/-- At some point of the segments more of them went up than there were names to leave. -/
def Escapes (depth : Nat) (segments : List String) : Prop :=
  ∃ front, front <+: segments ∧ depth + front.countP Path.isName < front.count ".."

def folded (containing specifier : String) : List String :=
  Path.resolve (Path.directories containing) specifier

/-- What a relative specifier stands for in the file at a path: for nothing if it leaves the root or
ends at it, and otherwise for the first of the candidates that the graph has. -/
structure ReadsFromDirectory (resolver : ImportResolver) (graph : DependencyGraph)
    (containing specifier : String) : Prop where
  none_iff : resolver.basePath? specifier containing = none ↔
    Escapes (Path.directories containing).length (Path.segments specifier) ∨
      folded containing specifier = []
  path : ∀ base, resolver.basePath? specifier containing = some base →
    base = Text.joinWith "/" (folded containing specifier) ∧ Path.IsCanonical base
  isSome_iff : (resolver.resolve? graph specifier containing).isSome = true ↔
    ∃ base, resolver.basePath? specifier containing = some base ∧
      ∃ id ∈ candidates base, graph.contains id = true
  first : ∀ id, resolver.resolve? graph specifier containing = some id →
    ∃ base earlier later, resolver.basePath? specifier containing = some base ∧
      candidates base = earlier ++ id :: later ∧ graph.contains id = true ∧
        ∀ other ∈ earlier, graph.contains other = false

/-! ## Leaving the root -/

theorem not_escapes_nil (depth : Nat) : ¬ Escapes depth [] := by
  rintro ⟨front, inside, more⟩
  rw [List.prefix_nil.mp inside] at more
  exact Nat.not_lt_zero _ more

theorem escapes_cons {depth : Nat} {segment : String} {rest : List String} :
    Escapes depth (segment :: rest) ↔ ∃ front, front <+: rest ∧
      depth + (segment :: front).countP Path.isName < (segment :: front).count ".." := by
  constructor
  · rintro ⟨front, inside, more⟩
    rcases List.prefix_cons_iff.mp inside with rfl | ⟨later, rfl, below⟩
    · exact absurd more (Nat.not_lt_zero _)
    · exact ⟨later, below, more⟩
  · rintro ⟨front, inside, more⟩
    exact ⟨segment :: front, List.prefix_cons_iff.mpr (.inr ⟨front, rfl, inside⟩), more⟩

theorem escapes_stay {segment : String} (stays : segment = "" ∨ segment = ".") {depth : Nat}
    {rest : List String} : Escapes depth (segment :: rest) ↔ Escapes depth rest := by
  have unnamed : Path.isName segment = false := by
    rcases stays with rfl | rfl <;> decide
  have level : segment ≠ ".." := by
    rcases stays with rfl | rfl <;> decide
  rw [escapes_cons, Escapes]
  refine exists_congr fun front => and_congr_right fun _ => ?_
  rw [List.countP_cons_of_neg (by simp [unnamed]), List.count_cons_of_ne level]

theorem escapes_up_of_root (rest : List String) : Escapes 0 (".." :: rest) :=
  ⟨[".."], List.cons_prefix_cons.mpr ⟨rfl, List.nil_prefix⟩, by decide⟩

theorem escapes_up {depth : Nat} {rest : List String} :
    Escapes (depth + 1) (".." :: rest) ↔ Escapes depth rest := by
  have unnamed : Path.isName ".." = false := by decide
  rw [escapes_cons, Escapes]
  refine exists_congr fun front => and_congr_right fun _ => ?_
  rw [List.countP_cons_of_neg (by simp [unnamed]), List.count_cons_self]
  omega

theorem escapes_name {segment : String} (named : Path.isName segment = true) {depth : Nat}
    {rest : List String} : Escapes depth (segment :: rest) ↔ Escapes (depth + 1) rest := by
  have level : segment ≠ ".." := by
    rintro rfl
    exact absurd named (by decide)
  rw [escapes_cons, Escapes]
  refine exists_congr fun front => and_congr_right fun _ => ?_
  rw [List.countP_cons_of_pos named, List.count_cons_of_ne level]
  omega

/-! ## Walks -/

theorem walk_stay {segment : String} (stays : segment = "" ∨ segment = ".")
    (here rest : List String) : walk here (segment :: rest) = walk here rest := by
  rcases stays with rfl | rfl <;> simp [walk]

theorem walk_up_of_root (rest : List String) : walk [] (".." :: rest) = none := by
  simp [walk]

theorem walk_up (name : String) (above rest : List String) :
    walk (name :: above) (".." :: rest) = walk above rest := by
  simp [walk]

theorem walk_name {segment : String} (named : Path.isName segment = true)
    (here rest : List String) : walk here (segment :: rest) = walk (segment :: here) rest := by
  simp_all [walk, Path.isName]

theorem segment_cases (segment : String) :
    (segment = "" ∨ segment = ".") ∨ segment = ".." ∨ Path.isName segment = true := by
  by_cases empty : segment = ""
  · exact .inl (.inl empty)
  by_cases dot : segment = "."
  · exact .inl (.inr dot)
  by_cases level : segment = ".."
  · exact .inr (.inl level)
  exact .inr (.inr (by simp [Path.isName, empty, dot, level]))

/-- A walk fails just when it leaves the root. -/
theorem walk_eq_none_iff {here segments : List String} :
    walk here segments = none ↔ Escapes here.length segments := by
  induction segments generalizing here with
  | nil => simp [walk, not_escapes_nil]
  | cons segment rest ih =>
    rcases segment_cases segment with stays | rfl | named
    · rw [walk_stay stays, escapes_stay stays, ih]
    · cases here with
      -- At the root the walk stops, and with this segment the count is already one too high.
      | nil => simp [walk_up_of_root, escapes_up_of_root]
      | cons name above => rw [walk_up, List.length_cons, escapes_up, ih]
    · rw [walk_name named, escapes_name named, ih, List.length_cons]

/-- Where the segments lead from names, `..` staying at the root. -/
def follow (names segments : List String) : List String :=
  segments.foldl
    (fun names segment =>
      if segment == "" || segment == "." then names
      else if segment == ".." then names.dropLast
      else names ++ [segment])
    names

/-- A walk that stays below the root ends where its segments lead. -/
theorem walk_eq_some {here segments names : List String}
    (walked : walk here segments = some names) : names.reverse = follow here.reverse segments := by
  induction segments generalizing here with
  | nil => simp_all [walk, follow]
  | cons segment rest ih =>
    rcases segment_cases segment with stays | rfl | named
    · rw [walk_stay stays] at walked
      rw [ih walked]
      rcases stays with rfl | rfl <;> simp [follow]
    · cases here with
      | nil => exact absurd walked (by simp [walk_up_of_root])
      | cons name above =>
        rw [walk_up] at walked
        rw [ih walked]
        simp [follow]
    · rw [walk_name named] at walked
      rw [ih walked]
      simp_all [follow, Path.isName]

/-- A walk leaves some of the names it began with and goes on with names of its segments. -/
theorem exists_of_walk {here segments names : List String}
    (walked : walk here segments = some names) :
    ∃ added kept, names = added ++ kept ∧ kept <:+ here ∧
      ∀ name ∈ added, name ∈ segments ∧ Path.isName name = true := by
  induction segments generalizing here with
  | nil =>
    rw [walk, Option.some_inj] at walked
    exact ⟨[], here, walked.symm, List.suffix_refl _, List.forall_mem_nil _⟩
  | cons segment rest ih =>
    rcases segment_cases segment with stays | rfl | named
    · rw [walk_stay stays] at walked
      obtain ⟨added, kept, shape, suffix, each⟩ := ih walked
      exact ⟨added, kept, shape, suffix, fun name mem =>
        (each name mem).imp_left (List.mem_cons_of_mem _)⟩
    · cases here with
      | nil => exact absurd walked (by simp [walk_up_of_root])
      | cons first above =>
        rw [walk_up] at walked
        obtain ⟨added, kept, shape, suffix, each⟩ := ih walked
        exact ⟨added, kept, shape, suffix.trans (List.suffix_cons _ _), fun name mem =>
          (each name mem).imp_left (List.mem_cons_of_mem _)⟩
    · rw [walk_name named] at walked
      obtain ⟨added, kept, shape, suffix, each⟩ := ih walked
      have each : ∀ name ∈ added, name ∈ segment :: rest ∧ Path.isName name = true :=
        fun name mem => (each name mem).imp_left (List.mem_cons_of_mem _)
      -- The name that was added here is kept or left again with the names before it.
      rcases List.suffix_cons_iff.mp suffix with rfl | suffix
      · refine ⟨added ++ [segment], here, by simp [shape], List.suffix_refl _, fun name mem => ?_⟩
        rcases List.mem_append.mp mem with mem | mem
        · exact each name mem
        · obtain rfl := List.mem_singleton.mp mem
          exact ⟨List.mem_cons_self, named⟩
      · exact ⟨added, kept, shape, suffix, each⟩

theorem mem_of_walk {here segments names : List String} (walked : walk here segments = some names)
    {name : String} (mem : name ∈ names) :
    name ∈ here ∨ name ∈ segments ∧ Path.isName name = true := by
  obtain ⟨added, kept, rfl, suffix, each⟩ := exists_of_walk walked
  rcases List.mem_append.mp mem with mem | mem
  · exact .inr (each name mem)
  · exact .inl (suffix.subset mem)

/-! ## The path of a relative specifier -/

theorem startsWithWord_append (word rest : String) :
    Text.startsWithWord word.toList (word ++ rest).toList = true := by
  rw [Text.startsWithWord, String.toList_append, Text.dropWord?_append, Option.isSome_some]

theorem IsRelative.isRelative {specifier : String} (relative : IsRelative specifier) :
    isRelative specifier = true := by
  rw [ImportResolver.isRelative, Bool.or_eq_true]
  obtain ⟨rest, rfl | rfl⟩ := relative
  · exact .inl (startsWithWord_append "./" rest)
  · exact .inr (startsWithWord_append "../" rest)

theorem IsRelative.head?_ne {specifier : String} (relative : IsRelative specifier) :
    specifier.toList.head? ≠ some '/' := by
  obtain ⟨rest, rfl | rfl⟩ := relative <;> simp

theorem directory_names {path : String} (canonical : Path.IsCanonical path) :
    (Path.segments ((Path.parent? path).getD "")).filter (· != "") = Path.directories path := by
  rcases Path.parent?_cases path with ⟨parent, top⟩ | ⟨front, parent, above⟩
  · rw [parent, top]
    decide
  · rw [parent, Option.getD_some, ← above]
    refine List.filter_eq_self.mpr fun name mem => ?_
    have named := canonical.2 name ((List.dropLast_sublist _).mem mem)
    simp_all [Path.isName]

section

variable {resolver : ImportResolver} {specifier containing : String}
  (relative : IsRelative specifier) (canonical : Path.IsCanonical containing)

include relative

theorem folded_of_walk {names : List String}
    (walked : walk (Path.directories containing).reverse (Path.segments specifier) = some names) :
    folded containing specifier = names.reverse := by
  rw [walk_eq_some walked, List.reverse_reverse, folded, Path.resolve,
    if_neg (by simpa using relative.head?_ne), follow]

include canonical

/-- The path of a specifier is written with the names its walk ends with, if there are any. -/
theorem basePath?_eq : resolver.basePath? specifier containing =
    ((walk (Path.directories containing).reverse (Path.segments specifier)).filter
      (· != [])).map fun names => Text.joinWith "/" names.reverse := by
  rw [basePath?, if_pos relative.isRelative, reach?, directory_names canonical]
  split <;> simp_all [Option.filter]

theorem basePath?_eq_none_iff :
    resolver.basePath? specifier containing = none ↔
      Escapes (Path.directories containing).length (Path.segments specifier) ∨
        folded containing specifier = [] := by
  rw [basePath?_eq relative canonical, Option.map_eq_none_iff]
  have fails := @walk_eq_none_iff (Path.directories containing).reverse (Path.segments specifier)
  rw [List.length_reverse] at fails
  cases walked : walk (Path.directories containing).reverse (Path.segments specifier) with
  | none => simp [fails.mp walked]
  | some names =>
    have inside : ¬ Escapes (Path.directories containing).length (Path.segments specifier) :=
      fun escapes => by simp [fails.mpr escapes] at walked
    simp [inside, folded_of_walk relative walked]

/-- The path of a specifier is the canonical path of the names its segments lead to. -/
theorem eq_of_basePath?_eq_some {base : String}
    (found : resolver.basePath? specifier containing = some base) :
    base = Text.joinWith "/" (folded containing specifier) ∧ Path.IsCanonical base := by
  rw [basePath?_eq relative canonical] at found
  obtain ⟨names, reached, rfl⟩ := Option.map_eq_some_iff.mp found
  obtain ⟨walked, below⟩ := Option.filter_eq_some_iff.mp reached
  have named : ∀ name ∈ names, Path.isName name = true ∧ '/' ∉ name.toList := by
    intro name mem
    rcases mem_of_walk walked mem with above | ⟨inside, named⟩
    · have segment := (List.dropLast_sublist _).mem (List.mem_reverse.mp above)
      exact ⟨canonical.2 name segment, Path.slash_not_mem_of_mem_segments segment⟩
    · exact ⟨named, Path.slash_not_mem_of_mem_segments inside⟩
  refine ⟨by rw [folded_of_walk relative walked],
    Path.isCanonical_joinWith ?_ fun name mem => ?_⟩
  · simpa using below
  · exact named name (List.mem_reverse.mp mem)

end

/-! ## The node of a specifier -/

section

variable {resolver : ImportResolver} {graph : DependencyGraph} {specifier containing : String}

theorem isSome_resolve?_iff :
    (resolver.resolve? graph specifier containing).isSome = true ↔
      ∃ base, resolver.basePath? specifier containing = some base ∧
        ∃ id ∈ candidates base, graph.contains id = true := by
  rw [resolve?]
  cases resolver.basePath? specifier containing <;> simp

theorem resolve?_eq_some_iff {id : NodeId} :
    resolver.resolve? graph specifier containing = some id ↔
      ∃ base earlier later, resolver.basePath? specifier containing = some base ∧
        candidates base = earlier ++ id :: later ∧ graph.contains id = true ∧
          ∀ other ∈ earlier, graph.contains other = false := by
  rw [resolve?, Option.bind_eq_some_iff]
  refine exists_congr fun base => ?_
  rw [List.find?_eq_some_iff_append]
  constructor
  · rintro ⟨found, here, earlier, later, shape, absent⟩
    exact ⟨earlier, later, found, shape, here, fun other mem => by simpa using absent other mem⟩
  · rintro ⟨earlier, later, found, shape, here, absent⟩
    exact ⟨found, here, earlier, later, shape, fun other mem => by simp [absent other mem]⟩

end

/-! ## Specifiers of every file -/

def ascend : Nat → String → String
  | 0, path => path
  | steps + 1, path => "../" ++ ascend steps path

/-- The specifier that goes up to the root from a directory that deep and names a path from there;
at the root it begins with the step that stays. -/
def fromDepth (depth : Nat) (path : String) : String :=
  if depth = 0 then "./" ++ path else ascend depth path

theorem segments_stay (path : String) :
    Path.segments ("./" ++ path) = "." :: Path.segments path :=
  Path.segments_append "." path

theorem segments_up (path : String) :
    Path.segments ("../" ++ path) = ".." :: Path.segments path :=
  Path.segments_append ".." path

theorem isRelative_fromDepth (depth : Nat) (path : String) : IsRelative (fromDepth depth path) := by
  cases depth with
  | zero => exact ⟨path, .inl rfl⟩
  | succ depth => exact ⟨ascend depth path, .inr rfl⟩

theorem walk_ascend (here : List String) (steps : Nat) (path : String) :
    walk here (Path.segments (ascend (here.length + steps) path)) =
      walk [] (Path.segments (ascend steps path)) := by
  induction here with
  | nil => rw [List.length_nil, Nat.zero_add]
  | cons name above ih =>
    rw [List.length_cons, Nat.add_right_comm, ascend, segments_up, walk_up, ih]

theorem walk_fromDepth (here : List String) (path : String) :
    walk here (Path.segments (fromDepth here.length path)) = walk [] (Path.segments path) := by
  cases here with
  | nil => exact (congrArg (walk []) (segments_stay path)).trans (walk_stay (.inr rfl) _ _)
  | cons name above => exact walk_ascend (name :: above) 0 path

/-- One step more than there are directories leaves the root. -/
theorem walk_ascend_past_root (here : List String) (path : String) :
    walk here (Path.segments (ascend (here.length + 1) path)) = none := by
  rw [walk_ascend, ascend, segments_up, walk_up_of_root]

theorem walk_up_fromDepth (here : List String) (path : String) :
    walk here (Path.segments ("../" ++ fromDepth here.length path)) = none := by
  cases here with
  | nil => exact (congrArg (walk []) (segments_up _)).trans (walk_up_of_root _)
  | cons name above => exact walk_ascend_past_root (name :: above) path

theorem walk_names {names : List String} (named : ∀ name ∈ names, Path.isName name = true)
    (here : List String) : walk here names = some (names.reverse ++ here) := by
  induction names generalizing here with
  | nil => rfl
  | cons name names ih =>
    obtain ⟨first, named⟩ := List.forall_mem_cons.mp named
    rw [walk_name first, ih named, List.reverse_cons, List.append_assoc, List.singleton_append]

section

variable {resolver : ImportResolver} {graph : DependencyGraph} {containing path : String}
  (canonical : Path.IsCanonical containing)

include canonical

theorem basePath?_fromDepth (target : Path.IsCanonical path) :
    resolver.basePath? (fromDepth (Path.directories containing).length path) containing =
      some path := by
  have down := walk_fromDepth (Path.directories containing).reverse path
  rw [List.length_reverse, walk_names target.2, List.append_nil] at down
  have below : (some (Path.segments path).reverse).filter (· != []) =
      some (Path.segments path).reverse := by
    simp [Option.filter, Path.segments_ne_nil]
  rw [basePath?_eq (isRelative_fromDepth _ _) canonical, down, below, Option.map_some,
    List.reverse_reverse, Path.joinWith_segments]

theorem resolve?_eq_none_of_walk {specifier : String} (relative : IsRelative specifier)
    (failed : walk (Path.directories containing).reverse (Path.segments specifier) = none) :
    resolver.resolve? graph specifier containing = none := by
  rw [resolve?, basePath?_eq relative canonical, failed]
  rfl

end

/-- Relative specifiers are read from the directory of the file they stand in. Every file of the
graph is reached by going up to the root, and is not reached by going up once more. -/
theorem relative_resolves (resolver : ImportResolver) (graph : DependencyGraph)
    {containing : String} (canonical : Path.IsCanonical containing) :
    (∀ specifier, IsRelative specifier →
      ReadsFromDirectory resolver graph containing specifier) ∧
    ∀ path, Path.IsCanonical path → graph.contains path = true →
      resolver.resolve? graph (fromDepth (Path.directories containing).length path) containing =
          some path ∧
        resolver.resolve? graph (ascend ((Path.directories containing).length + 1) path)
            containing = none ∧
        resolver.resolve? graph ("../" ++ fromDepth (Path.directories containing).length path)
            containing = none := by
  refine ⟨fun specifier relative => ?_, fun path target mem => ⟨?_, ?_, ?_⟩⟩
  · exact ⟨basePath?_eq_none_iff relative canonical,
      fun base => eq_of_basePath?_eq_some relative canonical, isSome_resolve?_iff,
      fun id => resolve?_eq_some_iff.mp⟩
  · exact resolve?_eq_some_iff.mpr ⟨path, [], suffixes.map (path ++ ·),
      basePath?_fromDepth canonical target, rfl, mem, List.forall_mem_nil _⟩
  · refine resolve?_eq_none_of_walk canonical ⟨_, .inr rfl⟩ ?_
    rw [← List.length_reverse]
    exact walk_ascend_past_root _ _
  · refine resolve?_eq_none_of_walk canonical ⟨_, .inr rfl⟩ ?_
    rw [← List.length_reverse]
    exact walk_up_fromDepth _ _

/-- A page two directories deep reaches the index of a neighbouring directory by its name and by
the whole path from the root, not by three steps up, and no specifier of it stands for the root. -/
theorem relative_resolves_from_page :
    let node (path : String) : CodeNode := ⟨path, .file, path, path, 1, 1, [], [], .none⟩
    let graph := (DependencyGraph.empty.addNode (node "src/lib/index.ts")).addNode
      (node "src/pages/home.tsx")
    let resolver : ImportResolver := ⟨"@/", ""⟩
    Path.IsCanonical "src/pages/home.tsx" ∧ Path.IsCanonical "src/lib/index.ts" ∧
      graph.contains "src/lib/index.ts" = true ∧ IsRelative "../lib" ∧ IsRelative "../.." ∧
      (resolver.resolve? graph "../lib" "src/pages/home.tsx").isSome = true ∧
      resolver.basePath? "../.." "src/pages/home.tsx" = none ∧
      resolver.resolve? graph "../../src/lib/index.ts" "src/pages/home.tsx" =
        some "src/lib/index.ts" ∧
      resolver.resolve? graph "../../../src/lib/index.ts" "src/pages/home.tsx" = none := by
  intro node graph resolver
  have canonical : Path.IsCanonical "src/pages/home.tsx" := by decide
  have target : Path.IsCanonical "src/lib/index.ts" := by decide
  have mem : graph.contains "src/lib/index.ts" = true := by decide
  have sibling : IsRelative "../lib" := ⟨"lib", .inr rfl⟩
  have root : IsRelative "../.." := ⟨"..", .inr rfl⟩
  obtain ⟨reads, reached⟩ := relative_resolves resolver graph canonical
  obtain ⟨found, past, -⟩ := reached "src/lib/index.ts" target mem
  refine ⟨canonical, target, mem, sibling, root, ?_, ?_, found, past⟩
  · exact (reads "../lib" sibling).isSome_iff.mpr
      ⟨"src/lib", by decide, "src/lib/index.ts", by decide, mem⟩
  · exact (reads "../.." root).none_iff.mpr (.inr (by decide))

end ImportResolver

end ChangeImpact
