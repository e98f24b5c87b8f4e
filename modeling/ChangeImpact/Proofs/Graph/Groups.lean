import ChangeImpact.Graph.Group
import ChangeImpact.Proofs.Ascending
import ChangeImpact.Proofs.Classes
import ChangeImpact.Proofs.Disk.Segments
import ChangeImpact.Proofs.Graph.Calls

/-!
# The groups of a graph

Every node is in the group of its directory and in no other, the groups stand in the order of their
directories, and the nodes of a group in the order of their identifiers. So the groups tell nothing
of the order in which the nodes were added.
-/

namespace ChangeImpact

namespace DependencyGraph

/-! ## Directories -/

/-- Two files are shown under one directory if they lie in one; the root is shown as `.`, which is
the name of no directory. -/
theorem directoryOf_eq_iff {one other : CodeNode} (canonical : Path.IsCanonical one.path)
    (canonical' : Path.IsCanonical other.path) :
    directoryOf one = directoryOf other ↔
      Path.directories one.path = Path.directories other.path := by
  have named {path : String} (canonical : Path.IsCanonical path) :
      Path.directories path ≠ Path.segments "." := by
    intro dotted
    have mem : "." ∈ Path.directories path := by rw [dotted]; decide
    have isName := canonical.2 "." ((List.dropLast_sublist _).mem mem)
    exact absurd isName (by decide)
  have injective {front back : String} : front = back ↔
      Path.segments front = Path.segments back := by
    refine ⟨congrArg Path.segments, fun same => ?_⟩
    rw [← Path.joinWith_segments front, same, Path.joinWith_segments]
  unfold directoryOf
  rcases Path.parent?_cases one.path with ⟨top, root⟩ | ⟨front, inside, above⟩ <;>
    rcases Path.parent?_cases other.path with ⟨top', root'⟩ | ⟨front', inside', above'⟩
  · simp [top, top', root, root']
  · have deep : Path.segments front' ≠ [] := Path.segments_ne_nil front'
    have elsewhere : "." ≠ front' := by
      rintro rfl
      exact named canonical' above'
    simp [top, inside', root, above', elsewhere, Ne.symm deep]
  · have deep : Path.segments front ≠ [] := Path.segments_ne_nil front
    have elsewhere : front ≠ "." := by
      rintro rfl
      exact named canonical above
    simp [inside, top', above, root', elsewhere, deep]
  · rw [inside, inside', above, above', Option.getD_some, Option.getD_some, injective]

variable {graph : DependencyGraph}

def directories (graph : DependencyGraph) : List String :=
  Ascending.ofList (graph.nodes.map directoryOf)

theorem groups_eq_map (graph : DependencyGraph) :
    graph.groups = graph.directories.map graph.groupOf := rfl

theorem mem_directories {directory : String} :
    directory ∈ graph.directories ↔ ∃ node ∈ graph.nodes, directoryOf node = directory := by
  rw [directories, Ascending.mem_ofList, List.mem_map]

/-! ## Groups -/

theorem mem_nodeIds_groupOf {directory : String} {id : NodeId} :
    id ∈ (graph.groupOf directory).nodeIds ↔
      ∃ node ∈ graph.nodes, directoryOf node = directory ∧ node.id = id := by
  rw [groupOf, Ascending.sortStrings, (Ascending.perm_sortBy _ _).mem_iff]
  simp [and_assoc]

theorem id_mem_nodeIds_groupOf {directory : String} {node : CodeNode} (mem : node ∈ graph.nodes) :
    node.id ∈ (graph.groupOf directory).nodeIds ↔ directoryOf node = directory := by
  rw [mem_nodeIds_groupOf]
  constructor
  · rintro ⟨other, listed, rfl, same⟩
    rw [List.inj_on_of_nodup_map graph.ids_nodup mem listed same.symm]
  · intro here
    exact ⟨node, mem, here, rfl⟩

theorem id_groupOf (graph : DependencyGraph) (directory : String) :
    (graph.groupOf directory).id = "group:" ++ directory := rfl

theorem id_inj {directory other : String} :
    "group:" ++ directory = "group:" ++ other ↔ directory = other := by
  rw [← String.toList_inj, String.toList_append, String.toList_append, List.append_cancel_left_eq,
    String.toList_inj]

/-- Without repeated identifiers a group is in strictly ascending order. -/
theorem pairwise_nodeIds_groupOf (graph : DependencyGraph) (directory : String) :
    (graph.groupOf directory).nodeIds.Pairwise (· < ·) := by
  have sorted := Ascending.pairwise_sortStrings
    ((graph.nodes.filter fun node => directoryOf node == directory).map (·.id))
  have distinct : (graph.groupOf directory).nodeIds.Pairwise (· ≠ ·) := by
    rw [groupOf, Ascending.sortStrings, (Ascending.perm_sortBy _ _).pairwise_iff Ne.symm]
    exact graph.ids_nodup.sublist (List.filter_sublist.map _)
  refine sorted.imp₂ (fun a b before differ => ?_) distinct
  exact String.not_le.mp fun after => differ (String.le_antisymm before after)

/-- The groups one after another list every node once. -/
theorem perm_flatMap_nodeIds (graph : DependencyGraph) :
    (graph.groups.flatMap (·.nodeIds)).Perm graph.ids := by
  have listed : ∀ node ∈ graph.nodes, directoryOf node ∈ graph.directories := fun node mem =>
    mem_directories.mpr ⟨node, mem, rfl⟩
  have classes := flatMap_filter_key_perm (Ascending.nodup_ofList _) listed
  have each : ∀ directory ∈ graph.directories, (graph.groupOf directory).nodeIds.Perm
      ((graph.nodes.filter fun node => directoryOf node == directory).map (·.id)) :=
    fun directory _ => Ascending.perm_sortBy _ _
  rw [groups_eq_map, List.flatMap_map]
  refine (List.Perm.flatMap_left _ each).trans ?_
  rw [← List.map_flatMap]
  exact classes.map _

structure ListsByDirectory (graph : DependencyGraph) (groups : List NodeGroup) : Prop where
  /-- Every node is listed, and once. -/
  perm : (groups.flatMap (·.nodeIds)).Perm graph.ids
  nonempty : ∀ group ∈ groups, group.nodeIds ≠ []
  ids_nodup : (groups.map (·.id)).Nodup
  /-- The groups are called after their directories and stand in the order of these. -/
  ordered : ∃ directories : List String, directories.Pairwise (· < ·) ∧
    groups.map (·.id) = directories.map ("group:" ++ ·)
  sorted : ∀ group ∈ groups, group.nodeIds.Pairwise (· < ·)
  /-- A node is in the group that is called after its directory. -/
  mem_iff : ∀ node ∈ graph.nodes, ∀ group ∈ groups,
    node.id ∈ group.nodeIds ↔ group.id = "group:" ++ directoryOf node
  /-- Two nodes are in one group if they lie in one directory. -/
  together_iff : ∀ one ∈ graph.nodes, ∀ other ∈ graph.nodes,
    (∃ group ∈ groups, one.id ∈ group.nodeIds ∧ other.id ∈ group.nodeIds) ↔
      Path.directories one.path = Path.directories other.path

/-- The groups of a graph list its nodes by their directories, whatever the order of the nodes. -/
theorem groups_listByDirectory (graph : DependencyGraph)
    (canonical : ∀ node ∈ graph.nodes, Path.IsCanonical node.path) :
    graph.ListsByDirectory graph.groups ∧
      ∀ other : DependencyGraph, other.nodes.Perm graph.nodes → other.groups = graph.groups := by
  have ascending : graph.directories.Pairwise (· < ·) := Ascending.pairwise_ofList _
  have ids : graph.groups.map (·.id) = graph.directories.map ("group:" ++ ·) := by
    rw [groups_eq_map, List.map_map]
    rfl
  refine ⟨⟨perm_flatMap_nodeIds graph, ?_, ?_, ⟨_, ascending, ids⟩, ?_, ?_, ?_⟩, ?_⟩
  · intro group mem
    obtain ⟨directory, listed, rfl⟩ := List.mem_map.mp mem
    obtain ⟨node, inGraph, here⟩ := mem_directories.mp listed
    exact List.ne_nil_of_mem ((id_mem_nodeIds_groupOf inGraph).mpr here)
  · rw [ids]
    exact (Ascending.nodup_ofList _).map fun _ _ same => id_inj.mp same
  · intro group mem
    obtain ⟨directory, -, rfl⟩ := List.mem_map.mp mem
    exact pairwise_nodeIds_groupOf graph directory
  · intro node inGraph group mem
    obtain ⟨directory, -, rfl⟩ := List.mem_map.mp mem
    rw [id_mem_nodeIds_groupOf inGraph, id_groupOf, id_inj, eq_comm]
  · intro one inGraph other inGraph'
    rw [← directoryOf_eq_iff (canonical one inGraph) (canonical other inGraph')]
    constructor
    · rintro ⟨group, mem, here, here'⟩
      obtain ⟨directory, -, rfl⟩ := List.mem_map.mp mem
      rw [(id_mem_nodeIds_groupOf inGraph).mp here, (id_mem_nodeIds_groupOf inGraph').mp here']
    · intro same
      have listed := mem_directories.mpr ⟨one, inGraph, rfl⟩
      exact ⟨_, List.mem_map_of_mem listed, (id_mem_nodeIds_groupOf inGraph).mpr rfl,
        (id_mem_nodeIds_groupOf inGraph').mpr same.symm⟩
  · intro other perm
    have directories : other.directories = graph.directories :=
      Ascending.ofList_congr fun directory => (perm.map directoryOf).mem_iff
    rw [groups_eq_map, groups_eq_map, directories]
    refine List.map_congr_left fun directory _ => ?_
    rw [groupOf, groupOf, Ascending.sortStrings_eq_of_perm ((perm.filter _).map _)]

/-- Four files in the root and two directories, added in two orders. -/
theorem groups_listByDirectory_two_orders :
    let node (path : String) : CodeNode := ⟨path, .file, path, path, 1, 1, [], [], .none⟩
    let graph := ofCalls [.node (node "src/ui/Button.tsx"), .node (node "src/b.ts"),
      .node (node "index.ts"), .node (node "src/a.ts")]
    let other := ofCalls [.node (node "src/a.ts"), .node (node "index.ts"),
      .node (node "src/ui/Button.tsx"), .node (node "src/b.ts")]
    (∀ node ∈ graph.nodes, Path.IsCanonical node.path) ∧ other.nodes.Perm graph.nodes ∧
      graph.ListsByDirectory graph.groups ∧ other.groups = graph.groups ∧
      graph.groups = [⟨"group:.", ".", ["index.ts"]⟩,
        ⟨"group:src", "src", ["src/a.ts", "src/b.ts"]⟩,
        ⟨"group:src/ui", "ui", ["src/ui/Button.tsx"]⟩] := by
  intro node graph other
  have canonical : ∀ node ∈ graph.nodes, Path.IsCanonical node.path := by decide
  have perm : other.nodes.Perm graph.nodes := by decide
  obtain ⟨lists, unordered⟩ := groups_listByDirectory graph canonical
  exact ⟨canonical, perm, lists, unordered other perm, by decide⟩

end DependencyGraph

end ChangeImpact
