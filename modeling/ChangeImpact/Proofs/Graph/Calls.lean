import ChangeImpact.Proofs.Graph.Arena
import ChangeImpact.Proofs.Graph.Dependents

/-!
# Graphs built by calls

A graph grows by calls that add a node or an edge. What has been added tells what the graph is: its
nodes in the order in which their identifiers came first, each as it was added last, and the edges
whose ends were there when they came. No call does more than it says, and the arena that is built by
the same calls answers every query as the graph does.
-/

namespace ChangeImpact

namespace DependencyGraph

inductive Call where
  | node (node : CodeNode)
  | edge (edge : Edge)
  deriving DecidableEq, Repr

namespace Call

def node? : Call → Option CodeNode
  | node added => some added
  | edge _ => none

def nodes (calls : List Call) : List CodeNode :=
  calls.filterMap node?

/-- The edges of calls that come when both ends are there, given the identifiers there before. -/
def accepted (known : List NodeId) : List Call → List Edge
  | [] => []
  | node added :: rest => accepted (added.id :: known) rest
  | edge joined :: rest =>
    if joined.source ∈ known ∧ joined.target ∈ known then joined :: accepted known rest
    else accepted known rest

end Call

/-- The graph after a call. An edge that is refused leaves the graph as it is. -/
def call (graph : DependencyGraph) : Call → DependencyGraph
  | .node node => graph.addNode node
  | .edge edge => (graph.addEdge edge).toOption.getD graph

def ofCalls (calls : List Call) : DependencyGraph :=
  calls.foldl call empty

namespace Arena

def call (arena : Arena) : Call → Arena
  | .node node => arena.addNode node
  | .edge edge => (arena.addEdge edge).toOption.getD arena

def ofCalls (calls : List Call) : Arena :=
  calls.foldl call empty

theorem Holds.call {arena : Arena} {graph : DependencyGraph} (holds : Holds arena graph)
    (call : Call) : Holds (arena.call call) (graph.call call) := by
  cases call with
  | node node => exact holds.addNode node
  | edge edge =>
    unfold Arena.call DependencyGraph.call
    rcases holds.addEdge edge with ⟨error, left, right⟩ | ⟨arena', graph', left, right, next⟩
    · simpa [left, right, Except.toOption] using holds
    · simpa [left, right, Except.toOption] using next

theorem holds_ofCalls (calls : List Call) : Holds (ofCalls calls) (.ofCalls calls) := by
  suffices run : ∀ (arena : Arena) (graph : DependencyGraph), Holds arena graph →
      Holds (calls.foldl call arena) (calls.foldl DependencyGraph.call graph) from
    run _ _ holds_empty
  induction calls with
  | nil => exact fun _ _ holds => holds
  | cons first rest ih => exact fun _ _ holds => ih _ _ (holds.call first)

end Arena

variable {graph : DependencyGraph} {calls : List Call}

/-! ## One call -/

theorem addEdge_eq_error_iff {edge : Edge} {error : DanglingEdge} :
    graph.addEdge edge = .error error ↔
      (edge.source ∉ graph.ids ∧ error = ⟨edge.id, edge.source⟩) ∨
        edge.source ∈ graph.ids ∧ edge.target ∉ graph.ids ∧ error = ⟨edge.id, edge.target⟩ := by
  unfold addEdge ids
  by_cases source : edge.source ∈ graph.nodes.map (·.id)
  · rw [dif_pos source]
    by_cases target : edge.target ∈ graph.nodes.map (·.id)
    · rw [dif_pos target]
      simp only [reduceCtorEq, source, target, not_true_eq_false, false_and, and_false, or_self]
    · rw [dif_neg target]
      simp only [Except.error.injEq, source, target, not_true_eq_false, not_false_eq_true,
        false_and, true_and, false_or, eq_comm]
  · rw [dif_neg source]
    simp only [Except.error.injEq, source, not_false_eq_true, true_and, false_and, or_false,
      eq_comm]

theorem call_edge (graph : DependencyGraph) (edge : Edge) :
    (graph.call (.edge edge)).nodes = graph.nodes ∧
      (graph.call (.edge edge)).edges =
        if edge.source ∈ graph.ids ∧ edge.target ∈ graph.ids then graph.edges ++ [edge]
        else graph.edges := by
  by_cases ends : edge.source ∈ graph.ids ∧ edge.target ∈ graph.ids
  · have taken : graph.addEdge edge = .ok _ := (dif_pos ends.1).trans (dif_pos ends.2)
    rw [if_pos ends, call, taken]
    exact ⟨rfl, rfl⟩
  · have refused : ∃ error, graph.addEdge edge = .error error := by
      simp only [addEdge_eq_error_iff]
      by_cases source : edge.source ∈ graph.ids
      · exact ⟨_, .inr ⟨source, fun target => ends ⟨source, target⟩, rfl⟩⟩
      · exact ⟨_, .inl ⟨source, rfl⟩⟩
    obtain ⟨error, refused⟩ := refused
    rw [if_neg ends, call, refused]
    exact ⟨rfl, rfl⟩

theorem ids_addNode (graph : DependencyGraph) (node : CodeNode) :
    (graph.addNode node).ids =
      if node.id ∈ graph.ids then graph.ids else graph.ids ++ [node.id] := by
  by_cases taken : node.id ∈ graph.ids
  · rw [if_pos taken, addNode, dif_pos (show node.id ∈ graph.nodes.map (·.id) from taken)]
    exact ids_replaceNode node graph.nodes
  · rw [if_neg taken, addNode, dif_neg (show node.id ∉ graph.nodes.map (·.id) from taken)]
    simp [ids]

/-- A node that is added again takes the place of the one before it. -/
theorem nodes_addNode_of_mem {node : CodeNode} (taken : node.id ∈ graph.ids) :
    (graph.addNode node).nodes = graph.nodes.set (graph.ids.idxOf node.id) node := by
  have place : graph.ids[graph.ids.idxOf node.id]? = some node.id := by
    rw [List.getElem?_eq_getElem (List.idxOf_lt_length_iff.mpr taken), List.getElem_idxOf]
  rw [addNode, dif_pos (show node.id ∈ graph.nodes.map (·.id) from taken)]
  exact Arena.replaceNode_eq_set graph.ids_nodup place

/-! ## All calls -/

theorem ids_foldl_call :
    (calls.foldl call graph).ids =
      graph.ids ++ (((Call.nodes calls).map (·.id)).removeAll graph.ids).eraseDups := by
  induction calls generalizing graph with
  | nil => simp [Call.nodes, List.removeAll]
  | cons first rest ih =>
    rw [List.foldl_cons, ih]
    cases first with
    | edge edge =>
      rw [ids, (call_edge graph edge).1]
      rfl
    | node node =>
      have listed : Call.nodes (.node node :: rest) = node :: Call.nodes rest := rfl
      rw [show graph.call (.node node) = graph.addNode node from rfl, ids_addNode, listed,
        List.map_cons]
      split
      · next taken => simp [List.removeAll, taken]
      · next fresh =>
        have others : ((Call.nodes rest).map (·.id)).removeAll (graph.ids ++ [node.id]) =
            (((Call.nodes rest).map (·.id)).removeAll graph.ids).filter
              fun id => !id == node.id := by
          rw [List.removeAll, List.removeAll, List.filter_filter]
          refine List.filter_congr fun id _ => ?_
          by_cases same : id = node.id <;> simp [same]
        have kept : (node.id :: (Call.nodes rest).map (·.id)).removeAll graph.ids =
            node.id :: ((Call.nodes rest).map (·.id)).removeAll graph.ids := by
          rw [List.removeAll, List.filter_cons_of_pos (by simpa using fresh)]
          rfl
        rw [others, kept, List.eraseDups_cons, List.append_assoc]
        rfl

theorem node?_foldl_call (id : NodeId) :
    (calls.foldl call graph).node? id =
      ((Call.nodes calls).reverse.find? (·.id == id)).or (graph.node? id) := by
  induction calls generalizing graph with
  | nil => rfl
  | cons first rest ih =>
    rw [List.foldl_cons, ih]
    cases first with
    | edge edge =>
      rw [node?, (call_edge graph edge).1]
      rfl
    | node node =>
      have listed : Call.nodes (.node node :: rest) = node :: Call.nodes rest := rfl
      rw [show graph.call (.node node) = graph.addNode node from rfl, node?_addNode, listed,
        List.reverse_cons, List.find?_append, Option.or_assoc]
      by_cases same : node.id = id <;> simp [same]

theorem edges_foldl_call {known : List NodeId} (same : ∀ id, id ∈ known ↔ id ∈ graph.ids) :
    (calls.foldl call graph).edges = graph.edges ++ Call.accepted known calls := by
  induction calls generalizing graph known with
  | nil => simp [Call.accepted]
  | cons first rest ih =>
    rw [List.foldl_cons]
    cases first with
    | edge edge =>
      obtain ⟨nodes, edges⟩ := call_edge graph edge
      have kept : ∀ id, id ∈ known ↔ id ∈ (graph.call (.edge edge)).ids := by
        rw [ids, nodes]
        exact same
      simp only [ih kept, edges, Call.accepted, same]
      split <;> simp
    | node node =>
      have grown : ∀ id, id ∈ node.id :: known ↔ id ∈ (graph.call (.node node)).ids := by
        intro id
        rw [show graph.call (.node node) = graph.addNode node from rfl, ids_addNode,
          List.mem_cons, same]
        split
        · next taken =>
          constructor
          · rintro (rfl | mem)
            · exact taken
            · exact mem
          · exact .inr
        · rw [List.mem_append, List.mem_singleton, or_comm]
      rw [ih grown, Call.accepted, show graph.call (.node node) = graph.addNode node from rfl,
        edges_addNode]

/-! ## Every graph is built by calls -/

theorem nodes_eq_filterMap (graph : DependencyGraph) :
    graph.nodes = graph.ids.filterMap graph.node? := by
  rw [ids, List.filterMap_map]
  symm
  calc graph.nodes.filterMap (graph.node? ∘ (·.id))
    _ = graph.nodes.filterMap some :=
      List.filterMap_congr fun node mem => find?_key_of_mem graph.ids_nodup mem
    _ = graph.nodes := List.filterMap_some

theorem eraseDups_of_nodup {ids : List NodeId} (nodup : ids.Nodup) : ids.eraseDups = ids := by
  induction ids with
  | nil => rfl
  | cons id rest ih =>
    obtain ⟨fresh, nodup⟩ := List.nodup_cons.mp nodup
    have kept : rest.filter (fun other => !other == id) = rest := by
      refine List.filter_eq_self.mpr fun other mem => ?_
      have differ : other ≠ id := fun same => fresh (same ▸ mem)
      simpa using differ
    rw [List.eraseDups_cons, kept, ih nodup]

theorem accepted_nodes_append (known : List NodeId) (nodes : List CodeNode) (rest : List Call) :
    Call.accepted known (nodes.map .node ++ rest) =
      Call.accepted ((nodes.map (·.id)).reverse ++ known) rest := by
  induction nodes generalizing known with
  | nil => rfl
  | cons node nodes ih =>
    rw [List.map_cons, List.cons_append, Call.accepted, ih]
    simp

theorem accepted_edges {known : List NodeId} {edges : List Edge}
    (ends : ∀ edge ∈ edges, edge.source ∈ known ∧ edge.target ∈ known) :
    Call.accepted known (edges.map .edge) = edges := by
  induction edges with
  | nil => rfl
  | cons edge rest ih =>
    rw [List.map_cons, Call.accepted, if_pos (ends edge List.mem_cons_self),
      ih fun other mem => ends other (List.mem_cons_of_mem _ mem)]

/-- A graph is built by adding its nodes and then its edges. -/
theorem ofCalls_nodes_edges (graph : DependencyGraph) :
    ofCalls (graph.nodes.map .node ++ graph.edges.map .edge) = graph := by
  generalize calls_eq : graph.nodes.map Call.node ++ graph.edges.map Call.edge = calls
  have added : Call.nodes calls = graph.nodes := by
    have nodes : (graph.nodes.map Call.node).filterMap Call.node? = graph.nodes := by
      rw [List.filterMap_map]
      exact List.filterMap_some
    have edges : (graph.edges.map Call.edge).filterMap Call.node? = [] := by
      simp [Call.node?]
    rw [← calls_eq, Call.nodes, List.filterMap_append, nodes, edges, List.append_nil]
  have ids_eq : (ofCalls calls).ids = graph.ids := by
    have all : graph.ids.removeAll empty.ids = graph.ids := by
      simp [List.removeAll, empty, ids]
    rw [ofCalls, ids_foldl_call, added]
    exact (congrArg List.eraseDups all).trans (eraseDups_of_nodup graph.ids_nodup)
  have node?_eq : (ofCalls calls).node? = graph.node? := by
    funext id
    have unique : ∀ a ∈ graph.nodes, ∀ b ∈ graph.nodes, (a.id == id) = true →
        (b.id == id) = true → a = b := by
      intro a memA b memB idA idB
      exact List.inj_on_of_nodup_map graph.ids_nodup memA memB
        ((eq_of_beq idA).trans (eq_of_beq idB).symm)
    rw [ofCalls, node?_foldl_call, added, find?_eq_of_perm (List.reverse_perm _) unique]
    exact Option.or_none
  have nodes_eq : (ofCalls calls).nodes = graph.nodes := by
    rw [nodes_eq_filterMap, nodes_eq_filterMap graph, ids_eq, node?_eq]
  have edges_eq : (ofCalls calls).edges = graph.edges := by
    rw [ofCalls, edges_foldl_call fun id => Iff.rfl, ← calls_eq, accepted_nodes_append,
      accepted_edges]
    · rfl
    · simpa [empty, ids] using graph.ends_mem
  generalize ofCalls calls = built at nodes_eq edges_eq
  cases built
  cases graph
  cases nodes_eq
  cases edges_eq
  rfl

/-! ## Edges at their ends -/

/-- Each edge is once among those with its own end and not among others. -/
theorem count_filter_end (edges : List Edge) (side : Edge → NodeId) (edge : Edge) (id : NodeId) :
    (edges.filter (side · == id)).reverse.count edge =
      if side edge = id then edges.count edge else 0 := by
  rw [List.count_reverse]
  split
  · next hit => exact List.count_filter (by simpa using hit)
  · next miss =>
    refine List.count_eq_zero.mpr fun mem => miss ?_
    simpa using (List.mem_filter.mp mem).2

/-- The edges with each of some identifiers at one end are together all edges. -/
theorem sum_filter_end {edges : List Edge} (side : Edge → NodeId) {ids : List NodeId}
    (nodup : ids.Nodup) (all : ∀ edge ∈ edges, side edge ∈ ids) :
    (ids.map fun id => (edges.filter (side · == id)).reverse.length).foldr (· + ·) 0 =
      edges.length := by
  have listed := (flatMap_filter_key_perm nodup all).length_eq
  rw [← listed]
  clear listed nodup all
  induction ids with
  | nil => rfl
  | cons id rest ih =>
    rw [List.map_cons, List.foldr_cons, ih, List.length_reverse, List.flatMap_cons,
      List.length_append]

theorem sum_degree (graph : DependencyGraph) :
    (graph.ids.map graph.degree).foldr (· + ·) 0 = 2 * graph.edges.length := by
  have sources := sum_filter_end (·.source) graph.ids_nodup
    fun edge mem => (graph.ends_mem edge mem).1
  have targets := sum_filter_end (·.target) graph.ids_nodup
    fun edge mem => (graph.ends_mem edge mem).2
  have parts : ∀ list : List NodeId, (list.map graph.degree).foldr (· + ·) 0 =
      (list.map fun id => (graph.edges.filter (·.target == id)).reverse.length).foldr (· + ·) 0 +
        (list.map fun id => (graph.edges.filter (·.source == id)).reverse.length).foldr
          (· + ·) 0 := by
    intro list
    induction list with
    | nil => rfl
    | cons id rest ih =>
      simp only [List.map_cons, List.foldr_cons, ih, degree, edgesFrom, edgesTo]
      omega
  rw [parts]
  unfold ids at *
  omega

theorem mem_dependencyIds {source target : NodeId} :
    target ∈ graph.dependencyIds source ↔ graph.HasEdge source target := by
  rw [dependencyIds, Ascending.mem_ofList]
  exact mem_successors

theorem map_id_dependencies (graph : DependencyGraph) (id : NodeId) :
    (graph.dependencies id).map (·.id) = graph.dependencyIds id :=
  map_key_filterMap fun _ mem => exists_node?_of_mem_ids (mem_dependencyIds.mp mem).target_mem

/-- A node stands in a list of nodes made from identifiers exactly if its own is one of them. -/
theorem mem_filterMap_node? {ids : List NodeId} {node : CodeNode} (mem : node ∈ graph.nodes) :
    node ∈ ids.filterMap graph.node? ↔ node.id ∈ ids := by
  have own : graph.node? node.id = some node := find?_key_of_mem graph.ids_nodup mem
  rw [List.mem_filterMap]
  constructor
  · rintro ⟨id, listed, found⟩
    have same : node.id = id := by simpa using List.find?_some found
    exact same ▸ listed
  · exact fun listed => ⟨node.id, listed, own⟩

/-! ## The invariant -/

structure IsBuiltBy (graph : DependencyGraph) (calls : List Call) : Prop where
  ids_nodup : graph.ids.Nodup
  /-- The nodes stand in the order in which their identifiers came first. -/
  nodes_eq : graph.nodes = graph.ids.filterMap graph.node?
  ids_eq : graph.ids = ((Call.nodes calls).map (·.id)).eraseDups
  /-- Each node is the last one added under its identifier. -/
  node?_eq : ∀ id, graph.node? id = (Call.nodes calls).reverse.find? (·.id == id)
  edges_eq : graph.edges = Call.accepted [] calls
  ends_mem : ∀ edge ∈ graph.edges, edge.source ∈ graph.ids ∧ edge.target ∈ graph.ids
  /-- An edge leaves its source, as often as it was added, and no other node. -/
  count_edgesFrom : ∀ edge id, (graph.edgesFrom id).count edge =
    if edge.source = id then graph.edges.count edge else 0
  count_edgesTo : ∀ edge id, (graph.edgesTo id).count edge =
    if edge.target = id then graph.edges.count edge else 0
  dependents_iff : ∀ source ∈ graph.nodes, ∀ target ∈ graph.nodes,
    (source ∈ graph.dependents target.id ↔ target ∈ graph.dependencies source.id) ∧
      (source ∈ graph.dependents target.id ↔ graph.HasEdge source.id target.id)
  dependents_ascending : ∀ id, ((graph.dependents id).map (·.id)).Pairwise (· < ·)
  dependencies_ascending : ∀ id, ((graph.dependencies id).map (·.id)).Pairwise (· < ·)
  sum_degree : (graph.ids.map graph.degree).foldr (· + ·) 0 = 2 * graph.edges.length

structure TakesCalls (graph : DependencyGraph) : Prop where
  /-- An edge is refused for the first of its ends that is missing, the source before the target. -/
  refused_iff : ∀ edge error, graph.addEdge edge = .error error ↔
    (edge.source ∉ graph.ids ∧ error = ⟨edge.id, edge.source⟩) ∨
      edge.source ∈ graph.ids ∧ edge.target ∉ graph.ids ∧ error = ⟨edge.id, edge.target⟩
  kept_of_refused : ∀ edge error, graph.addEdge edge = .error error →
    graph.call (.edge edge) = graph
  /-- A node that is added again stands where it stood and has the edges it had. -/
  readded : ∀ node, node.id ∈ graph.ids →
    (graph.addNode node).nodes = graph.nodes.set (graph.ids.idxOf node.id) node ∧
      (graph.addNode node).ids = graph.ids ∧
      (∀ id, (graph.addNode node).edgesFrom id = graph.edgesFrom id) ∧
      ∀ id, (graph.addNode node).edgesTo id = graph.edgesTo id

/-- The arena answers as the graph does, and refuses what the graph refuses. -/
structure Arena.Answers (arena : Arena) (graph : DependencyGraph) : Prop where
  nodes : arena.slots = graph.nodes
  edges : arena.arcs.map (·.edge) = graph.edges
  contains : ∀ id, arena.contains id = graph.contains id
  node? : ∀ id, arena.node? id = graph.node? id
  edgesFrom : ∀ id, arena.edgesFrom id = graph.edgesFrom id
  edgesTo : ∀ id, arena.edgesTo id = graph.edgesTo id
  refused_iff : ∀ edge error,
    arena.addEdge edge = .error error ↔ graph.addEdge edge = .error error

theorem Arena.Holds.answers {arena : Arena} (holds : arena.Holds graph) : arena.Answers graph where
  nodes := holds.slots
  edges := holds.edges
  contains := holds.contains_eq
  node? := holds.node?_eq
  edgesFrom := holds.edgesFrom_eq
  edgesTo := holds.edgesTo_eq
  refused_iff edge error := by
    rcases holds.addEdge edge with ⟨error, left, right⟩ | ⟨arena', graph', left, right, -⟩
    · rw [left, right]
      simp
    · simp [left, right]

theorem takesCalls (graph : DependencyGraph) : graph.TakesCalls where
  refused_iff _ _ := addEdge_eq_error_iff
  kept_of_refused edge error refused := by
    rw [call, refused]
    rfl
  readded node taken := by
    refine ⟨nodes_addNode_of_mem taken, ?_, ?_, ?_⟩
    · rw [ids_addNode, if_pos taken]
    · intro id
      rw [edgesFrom, edges_addNode, edgesFrom]
    · intro id
      rw [edgesTo, edges_addNode, edgesTo]

theorem isBuiltBy_ofCalls (calls : List Call) : (ofCalls calls).IsBuiltBy calls where
  ids_nodup := (ofCalls calls).ids_nodup
  nodes_eq := nodes_eq_filterMap _
  ids_eq := by
    have all : ((Call.nodes calls).map (·.id)).removeAll empty.ids =
        (Call.nodes calls).map (·.id) := by
      simp [List.removeAll, empty, ids]
    rw [ofCalls, ids_foldl_call, all]
    rfl
  node?_eq id := by
    rw [ofCalls, node?_foldl_call]
    exact Option.or_none
  edges_eq := edges_foldl_call fun _ => Iff.rfl
  ends_mem := (ofCalls calls).ends_mem
  count_edgesFrom edge id := count_filter_end _ (·.source) edge id
  count_edgesTo edge id := count_filter_end _ (·.target) edge id
  dependents_iff source memSource target memTarget := by
    rw [dependents, dependencies, mem_filterMap_node? memSource, mem_filterMap_node? memTarget,
      mem_dependentIds, mem_dependencyIds]
    exact ⟨Iff.rfl, Iff.rfl⟩
  dependents_ascending id := by
    rw [map_id_dependents]
    exact Ascending.pairwise_ofList _
  dependencies_ascending id := by
    rw [map_id_dependencies]
    exact Ascending.pairwise_ofList _
  sum_degree := sum_degree _

/-- Whatever the calls, the graph is made of them, takes the next call as told, and is held by the
arena that the same calls build. -/
theorem ofCalls_invariant (calls : List Call) :
    (ofCalls calls).IsBuiltBy calls ∧ (ofCalls calls).TakesCalls ∧
      (Arena.ofCalls calls).Answers (ofCalls calls) :=
  ⟨isBuiltBy_ofCalls calls, takesCalls _, (Arena.holds_ofCalls calls).answers⟩

end DependencyGraph

end ChangeImpact
