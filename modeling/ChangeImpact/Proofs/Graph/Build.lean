import ChangeImpact.Graph.Build
import ChangeImpact.Proofs.Ascending
import ChangeImpact.Proofs.Classes
import ChangeImpact.Proofs.Weight
import Mathlib.Data.List.Nodup

/-!
# The edges of a built graph

Building never fails. Between two nodes there is one edge of a kind if some reference of the one
stands for the other and makes an edge of this kind, and none if not; the weight of the edge counts
these references. Nothing else is an edge, and the order of the nodes does not matter.
-/

namespace ChangeImpact

namespace DependencyGraph

variable {graph built : DependencyGraph} {resolver : ImportResolver} {source target : NodeId}
  {kind : EdgeKind}

/-! ## The nodes -/

theorem node?_isSome (graph : DependencyGraph) (id : NodeId) :
    (graph.node? id).isSome = graph.contains id := by
  rw [Bool.eq_iff_iff, node?, List.find?_isSome, contains, ids, List.contains_iff_mem,
    List.mem_map]
  simp

theorem find?_replaceNode (node : CodeNode) (nodes : List CodeNode) (id : NodeId) :
    (replaceNode node nodes).find? (·.id == id) =
      if node.id = id then (nodes.find? (·.id == id)).map fun _ => node
      else nodes.find? (·.id == id) := by
  induction nodes with
  | nil => split <;> rfl
  | cons old rest ih =>
    rw [replaceNode] at ih ⊢
    rw [List.map_cons, List.find?_cons, List.find?_cons, ih]
    by_cases hit : node.id = id
    · subst hit
      by_cases same : old.id = node.id
      · simp [same]
      · have miss : (old.id == node.id) = false := by simpa using same
        simp [same, miss]
    · have miss : (node.id == id) = false := by simpa using hit
      by_cases same : old.id = node.id <;> simp [same, hit, miss]

theorem node?_addNode (graph : DependencyGraph) (node : CodeNode) (id : NodeId) :
    (graph.addNode node).node? id = if node.id = id then some node else graph.node? id := by
  unfold addNode
  split
  · next taken =>
    have found : (graph.nodes.find? (·.id == node.id)).isSome = true := by
      rw [List.find?_isSome]
      simpa using taken
    rw [node?, find?_replaceNode, node?]
    split
    · next hit =>
      subst hit
      obtain ⟨old, old_eq⟩ := Option.isSome_iff_exists.mp found
      rw [old_eq, Option.map_some]
    · rfl
  · next free =>
    rw [node?, List.find?_append, node?]
    split
    · next hit =>
      subst hit
      have none : graph.nodes.find? (·.id == node.id) = none := by
        simpa using free
      simp [none]
    · next miss => simp [miss]

theorem edges_addNode (graph : DependencyGraph) (node : CodeNode) :
    (graph.addNode node).edges = graph.edges := by
  unfold addNode
  split <;> rfl

theorem node?_foldl_addNode (nodes : List CodeNode) (id : NodeId) :
    (nodes.foldl addNode graph).node? id =
      (nodes.reverse.find? (·.id == id)).or (graph.node? id) := by
  induction nodes generalizing graph with
  | nil => rfl
  | cons node rest ih =>
    rw [List.foldl_cons, ih, node?_addNode, List.reverse_cons, List.find?_append, Option.or_assoc]
    by_cases same : node.id = id <;> simp [same]

theorem edges_foldl_addNode (nodes : List CodeNode) :
    (nodes.foldl addNode graph).edges = graph.edges := by
  induction nodes generalizing graph with
  | nil => rfl
  | cons node rest ih => rw [List.foldl_cons, ih, edges_addNode]

/-- Of nodes with one identifier the last one counts. -/
theorem node?_ofNodes (nodes : List CodeNode) (id : NodeId) :
    (ofNodes nodes).node? id = nodes.reverse.find? (·.id == id) := by
  rw [ofNodes, node?_foldl_addNode]
  exact Option.or_none

/-! ## The edges -/

theorem addEdges_eq_ok {edges : List Edge}
    (ends : ∀ edge ∈ edges, edge.source ∈ graph.ids ∧ edge.target ∈ graph.ids) :
    ∃ built, addEdges graph edges = .ok built ∧ built.nodes = graph.nodes ∧
      built.edges = graph.edges ++ edges := by
  induction edges generalizing graph with
  | nil => exact ⟨graph, rfl, rfl, (List.append_nil _).symm⟩
  | cons edge rest ih =>
    obtain ⟨source, target⟩ := ends edge List.mem_cons_self
    have added : ∃ next, graph.addEdge edge = .ok next ∧ next.nodes = graph.nodes ∧
        next.edges = graph.edges ++ [edge] := by
      have ok : graph.addEdge edge = .ok _ := (dif_pos source).trans (dif_pos target)
      exact ⟨_, ok, rfl, rfl⟩
    obtain ⟨next, ok, nodes, edges⟩ := added
    have others : ∀ edge ∈ rest, edge.source ∈ next.ids ∧ edge.target ∈ next.ids := by
      rw [ids, nodes]
      exact fun edge mem => ends edge (List.mem_cons_of_mem _ mem)
    obtain ⟨built, all, nodes', edges'⟩ := ih others
    refine ⟨built, ?_, nodes'.trans nodes, by simp [edges', edges]⟩
    rw [addEdges, List.foldlM_cons, ok]
    exact all

theorem mem_ids_of_resolve? {specifier containing : String}
    (found : resolver.resolve? graph specifier containing = some target) : target ∈ graph.ids := by
  obtain ⟨base, -, first⟩ := Option.bind_eq_some_iff.mp found
  simpa [contains] using List.find?_some first

theorem resolve?_congr (same : ∀ id, graph.contains id = built.contains id)
    (specifier containing : String) :
    resolver.resolve? graph specifier containing = resolver.resolve? built specifier containing := by
  have contains_eq : graph.contains = built.contains := funext same
  simp only [ImportResolver.resolve?, contains_eq]

/-- The references of a node that stand for `target` and make an edge of a kind. -/
def carried (graph : DependencyGraph) (resolver : ImportResolver) (node : CodeNode)
    (target : NodeId) (kind : EdgeKind) : List ImportRef :=
  node.imports.filter fun ref =>
    resolver.resolve? graph ref.source node.path == some target && ref.edgeKind == kind

def carriedFrom (graph : DependencyGraph) (resolver : ImportResolver) (source target : NodeId)
    (kind : EdgeKind) : List ImportRef :=
  ((graph.node? source).map fun node => graph.carried resolver node target kind).getD []

def edgesBetween (graph : DependencyGraph) (source target : NodeId) (kind : EdgeKind) : List Edge :=
  graph.edges.filter fun edge => edge.source == source && edge.target == target && edge.kind == kind

/-- The edge that carries some references, if there are any. -/
def edgeCarrying (source target : NodeId) (kind : EdgeKind) : Nat → Option Edge
  | 0 => none
  | n + 1 => some (.between source target kind (.ofNat (n + 1)))

theorem count_importTargets (node : CodeNode) :
    (importTargets graph resolver node).count (target, kind) =
      if node.id = target then 0 else (graph.carried resolver node target kind).length := by
  rw [importTargets, List.count_filterMap, carried, ← List.countP_eq_length_filter]
  split
  · next self =>
    refine List.countP_eq_zero.mpr fun ref _ => ?_
    cases resolver.resolve? graph ref.source node.path with
    | none => simp
    | some found =>
      by_cases same : found = node.id
      · simp [same]
      · have differ : found ≠ target := self ▸ same
        simp [same, differ]
  · next away =>
    refine List.countP_congr fun ref _ => ?_
    cases resolver.resolve? graph ref.source node.path with
    | none => simp
    | some found =>
      by_cases same : found = node.id
      · have differ : found ≠ target := same ▸ away
        simp [same ▸ differ, same]
      · simp [same]

theorem mem_of_count_importTargets {node : CodeNode} {n : Nat}
    (count : (importTargets graph resolver node).count (target, kind) = n + 1) :
    target ∈ Ascending.ofList ((importTargets graph resolver node).map (·.1)) ∧
      kind ∈ [EdgeKind.imports, EdgeKind.usesType] := by
  have mem : (target, kind) ∈ importTargets graph resolver node :=
    List.count_pos_iff.mp (by omega)
  refine ⟨Ascending.mem_ofList.mpr (List.mem_map_of_mem mem), ?_⟩
  obtain ⟨ref, -, made⟩ := List.mem_filterMap.mp mem
  have kind_eq : ref.edgeKind = kind := by
    cases found : resolver.resolve? graph ref.source node.path with
    | none => simp [found] at made
    | some id =>
      by_cases self : id = node.id <;> simp [found, self] at made
      exact made.2
  rw [← kind_eq, ImportRef.edgeKind]
  split <;> simp

theorem filter_edgeCarrying {source' target' : NodeId} {kind' : EdgeKind} (n : Nat) :
    (edgeCarrying source' target' kind' n).toList.filter
        (fun edge => edge.source == source && edge.target == target && edge.kind == kind) =
      if source' = source ∧ target' = target ∧ kind' = kind then
        (edgeCarrying source target kind n).toList
      else [] := by
  cases n with
  | zero => simp [edgeCarrying]
  | succ n =>
    split
    · next same =>
      obtain ⟨rfl, rfl, rfl⟩ := same
      simp [edgeCarrying, Edge.between]
    · next differ =>
      simpa [edgeCarrying, Edge.between, and_assoc] using differ

theorem importEdges_eq (node : CodeNode) :
    importEdges graph resolver node =
      (Ascending.ofList ((importTargets graph resolver node).map (·.1))).flatMap fun target =>
        [EdgeKind.imports, EdgeKind.usesType].flatMap fun kind =>
          (edgeCarrying node.id target kind
            ((importTargets graph resolver node).count (target, kind))).toList := by
  unfold importEdges
  refine List.flatMap_congr fun target _ => ?_
  rw [List.filterMap_eq_flatMap_toList]
  refine List.flatMap_congr fun kind _ => ?_
  cases (importTargets graph resolver node).count (target, kind) <;> rfl

theorem filter_importEdges (node : CodeNode) :
    (importEdges graph resolver node).filter
        (fun edge => edge.source == source && edge.target == target && edge.kind == kind) =
      if node.id = source then
        (edgeCarrying source target kind
          ((importTargets graph resolver node).count (target, kind))).toList
      else [] := by
  rw [importEdges_eq, List.filter_flatMap]
  simp only [List.filter_flatMap, filter_edgeCarrying]
  by_cases own : node.id = source
  · rw [if_pos own]
    cases count : (importTargets graph resolver node).count (target, kind) with
    | zero =>
      refine List.flatMap_eq_nil_iff.mpr fun target' _ => ?_
      refine List.flatMap_eq_nil_iff.mpr fun kind' _ => ?_
      split
      · next same =>
        obtain ⟨-, rfl, rfl⟩ := same
        rw [count]
        rfl
      · rfl
    | succ n =>
      obtain ⟨listed, ofKind⟩ := mem_of_count_importTargets count
      rw [flatMap_eq_of_unique (Ascending.nodup_ofList _) listed,
        flatMap_eq_of_unique (by decide) ofKind, if_pos ⟨own, rfl, rfl⟩, count]
      · intro other _ differ
        exact if_neg fun same => differ same.2.2
      · intro other _ differ
        refine List.flatMap_eq_nil_iff.mpr fun kind' _ => ?_
        exact if_neg fun same => differ same.2.1
  · rw [if_neg own]
    refine List.flatMap_eq_nil_iff.mpr fun target' _ => ?_
    refine List.flatMap_eq_nil_iff.mpr fun kind' _ => ?_
    exact if_neg fun same => own same.1

theorem ends_of_mem_importEdges {node : CodeNode} {edge : Edge}
    (mem : edge ∈ importEdges graph resolver node) :
    edge.source = node.id ∧ edge.target ∈ graph.ids := by
  rw [importEdges_eq] at mem
  obtain ⟨target, listed, mem⟩ := List.mem_flatMap.mp mem
  obtain ⟨kind, -, mem⟩ := List.mem_flatMap.mp mem
  obtain ⟨⟨found, kind'⟩, among, rfl⟩ := List.mem_map.mp (Ascending.mem_ofList.mp listed)
  have made : edge.source = node.id ∧ edge.target = found := by
    cases count : (importTargets graph resolver node).count (found, kind) with
    | zero => simp [count, edgeCarrying] at mem
    | succ n =>
      simp only [count, edgeCarrying, Option.toList_some, List.mem_singleton] at mem
      rw [mem]
      exact ⟨rfl, rfl⟩
  obtain ⟨ref, -, target_eq⟩ := List.mem_filterMap.mp among
  refine ⟨made.1, ?_⟩
  cases resolved : resolver.resolve? graph ref.source node.path with
  | none => simp [resolved] at target_eq
  | some id =>
    by_cases self : id = node.id <;> simp [resolved, self] at target_eq
    rw [made.2, ← target_eq.1]
    exact mem_ids_of_resolve? resolved

/-! ## The graph -/

theorem carriedFrom_congr (same : ∀ id, graph.node? id = built.node? id) :
    graph.carriedFrom resolver source target kind =
      built.carriedFrom resolver source target kind := by
  have resolve? : ∀ specifier containing,
      resolver.resolve? graph specifier containing = resolver.resolve? built specifier containing :=
    resolve?_congr fun id => by rw [← node?_isSome, ← node?_isSome, same]
  simp only [carriedFrom, carried, same, resolve?]

theorem filter_flatMap_importEdges (graph : DependencyGraph) (resolver : ImportResolver)
    (source target : NodeId) (kind : EdgeKind) :
    (graph.nodes.flatMap (importEdges graph resolver)).filter
        (fun edge => edge.source == source && edge.target == target && edge.kind == kind) =
      if source = target then []
      else (edgeCarrying source target kind
        (graph.carriedFrom resolver source target kind).length).toList := by
  rw [List.filter_flatMap]
  simp only [filter_importEdges, count_importTargets]
  cases found : graph.node? source with
  | none =>
    have absent : ∀ node ∈ graph.nodes, node.id ≠ source := by
      simpa [node?] using found
    have nothing : graph.carriedFrom resolver source target kind = [] := by
      simp [carriedFrom, found]
    rw [nothing, List.flatMap_eq_nil_iff.mpr fun node mem => if_neg (absent node mem)]
    split <;> rfl
  | some node =>
    have mem : node ∈ graph.nodes := List.mem_of_find?_eq_some found
    obtain rfl : node.id = source := by simpa using List.find?_some found
    have refs : graph.carriedFrom resolver node.id target kind =
        graph.carried resolver node target kind := by
      simp [carriedFrom, found]
    have others : ∀ other ∈ graph.nodes, other ≠ node → other.id ≠ node.id := by
      intro other listed differ same
      exact differ (List.inj_on_of_nodup_map graph.ids_nodup listed mem same)
    rw [flatMap_eq_of_unique (List.Nodup.of_map _ graph.ids_nodup) mem fun other listed differ =>
      if_neg (others other listed differ), if_pos rfl, refs]
    split <;> rfl

/-- Building succeeds with the nodes given, each kind of edge between each two of them as the
references tell. -/
theorem exists_build (nodes : List CodeNode) (resolver : ImportResolver) :
    ∃ graph, build nodes resolver = .ok graph ∧
      (∀ id, graph.node? id = nodes.reverse.find? (·.id == id)) ∧
      ∀ source target kind, graph.edgesBetween source target kind =
        if source = target then []
        else (edgeCarrying source target kind
          (graph.carriedFrom resolver source target kind).length).toList := by
  have ends : ∀ edge ∈ (ofNodes nodes).nodes.flatMap (importEdges (ofNodes nodes) resolver),
      edge.source ∈ (ofNodes nodes).ids ∧ edge.target ∈ (ofNodes nodes).ids := by
    intro edge mem
    obtain ⟨node, listed, mem⟩ := List.mem_flatMap.mp mem
    obtain ⟨source, target⟩ := ends_of_mem_importEdges mem
    exact ⟨source ▸ List.mem_map_of_mem listed, target⟩
  obtain ⟨graph, ok, nodes_eq, edges_eq⟩ := addEdges_eq_ok ends
  have none : (ofNodes nodes).edges = [] := edges_foldl_addNode nodes
  have same : ∀ id, graph.node? id = (ofNodes nodes).node? id := by
    intro id
    rw [node?, nodes_eq, node?]
  refine ⟨graph, ok, fun id => (same id).trans (node?_ofNodes nodes id), ?_⟩
  intro source target kind
  rw [edgesBetween, edges_eq, none, List.nil_append, filter_flatMap_importEdges,
    carriedFrom_congr same]

/-- Graphs that have the same edges between each two nodes have the same edges. -/
theorem perm_edges_of_edgesBetween
    (same : ∀ source target kind,
      graph.edgesBetween source target kind = built.edgesBetween source target kind) :
    graph.edges.Perm built.edges := by
  refine List.perm_iff_count.mpr fun edge => ?_
  have count : ∀ graph : DependencyGraph, graph.edges.count edge =
      (graph.edgesBetween edge.source edge.target edge.kind).count edge := by
    intro graph
    rw [edgesBetween, List.count_filter (by simp)]
  rw [count, count, same]

/-- Building gives the graph whose nodes are the last ones of each identifier, and whose edges are
one for each node, other node and kind of edge that some reference makes; its weight is the number
of these references. The order of nodes with distinct identifiers does not matter. -/
theorem build_exact (nodes : List CodeNode) (resolver : ImportResolver) :
    ∃ graph, build nodes resolver = .ok graph ∧
      (∀ id, graph.node? id = nodes.reverse.find? (·.id == id)) ∧
      (∀ source target kind,
        let refs := graph.carriedFrom resolver source target kind
        graph.edgesBetween source target kind =
            (if source = target ∨ refs = [] then []
            else [.between source target kind (.ofNat refs.length)]) ∧
          (refs.length ≤ 0x1000000 → (Weight.ofNat refs.length).IsNat refs.length)) ∧
      ((nodes.map (·.id)).Nodup → ∀ order : List CodeNode, order.Perm nodes →
        ∃ built, build order resolver = .ok built ∧ built.edges.Perm graph.edges) := by
  obtain ⟨graph, ok, node?_eq, between⟩ := exists_build nodes resolver
  refine ⟨graph, ok, node?_eq, ?_, ?_⟩
  · intro source target kind refs
    refine ⟨?_, Weight.isNat_ofNat⟩
    rw [between]
    by_cases self : source = target
    · rw [if_pos self, if_pos (.inl self)]
    · rw [if_neg self]
      change (edgeCarrying source target kind refs.length).toList = _
      cases refs with
      | nil => rw [if_pos (.inr rfl)]; rfl
      | cons ref rest => rw [if_neg (by simpa using self)]; rfl
  · intro distinct order perm
    obtain ⟨built, ok', node?_eq', between'⟩ := exists_build order resolver
    have same : ∀ id, built.node? id = graph.node? id := by
      intro id
      rw [node?_eq, node?_eq']
      refine find?_eq_of_perm ((order.reverse_perm.trans perm).trans nodes.reverse_perm.symm) ?_
      intro a memA b memB hitA hitB
      have ids : a.id = b.id := (beq_iff_eq.mp hitA).trans (beq_iff_eq.mp hitB).symm
      exact List.inj_on_of_nodup_map distinct (List.mem_reverse.mp memA) (List.mem_reverse.mp memB) ids
    refine ⟨built, ok', perm_edges_of_edgesBetween fun source target kind => ?_⟩
    rw [between, between', carriedFrom_congr same]

/-- A file that takes two values and a type from another one, and imports itself and a package. -/
theorem build_exact_mixed_imports :
    let node (path : String) (imports : List ImportRef) : CodeNode :=
      ⟨path, .file, path, path, 1, 1, imports, [], .none⟩
    let nodes : List CodeNode :=
      [node "a.ts" [⟨"x", "./b", .named, 1⟩, ⟨"T", "./b.ts", .typeOnly, 2⟩, ⟨"y", "@/b", .default, 3⟩,
        ⟨"z", "./a", .named, 4⟩, ⟨"r", "react", .named, 5⟩], node "b.ts" []]
    let resolver : ImportResolver := ⟨"@/", ""⟩
    let edges : List Edge :=
      [.between "a.ts" "b.ts" .imports (.ofNat 2), .between "a.ts" "b.ts" .usesType (.ofNat 1)]
    (nodes.map (·.id)).Nodup ∧ nodes.reverse.Perm nodes ∧
      ∃ graph, build nodes resolver = .ok graph ∧ graph.edges = edges ∧
        graph.edgesBetween "a.ts" "b.ts" .imports = [.between "a.ts" "b.ts" .imports (.ofNat 2)] ∧
        ∃ built, build nodes.reverse resolver = .ok built ∧ built.edges.Perm edges := by
  intro node nodes resolver edges
  have distinct : (nodes.map (·.id)).Nodup := by decide
  obtain ⟨graph, ok, -, -, order⟩ := build_exact nodes resolver
  obtain ⟨built, ok', perm⟩ := order distinct nodes.reverse nodes.reverse_perm
  have edges_eq : graph.edges = edges := by
    have evaluated : (build nodes resolver).toOption.map (·.edges) = some edges := by
      decide
    rw [ok] at evaluated
    exact Option.some.inj evaluated
  refine ⟨distinct, nodes.reverse_perm, graph, ok, edges_eq, ?_, built, ok', edges_eq ▸ perm⟩
  rw [edgesBetween, edges_eq]
  decide

end DependencyGraph

end ChangeImpact
