import ChangeImpact.Proofs.Graph.Build

/-!
# The graph as an arena

The nodes of a graph stand in numbered slots, an index leads from identifiers to slots, and an edge
is kept with the slots of its two ends. Every query goes through the index first and through the
slots after that. What the arena holds is the graph, and it answers every query as the graph does.
-/

namespace ChangeImpact

namespace DependencyGraph

/-- An edge and the slots of its two ends. -/
structure Arc where
  source : Nat
  target : Nat
  edge : Edge
  deriving DecidableEq, Repr

structure Arena where
  slots : List CodeNode
  arcs : List Arc
  index : List (NodeId × Nat)
  deriving DecidableEq, Repr

namespace Arena

def empty : Arena := ⟨[], [], []⟩

def slot? (arena : Arena) (id : NodeId) : Option Nat :=
  arena.index.lookup id

/-- Puts a node into the slot of its identifier, or into a new one that the index is told of. -/
def addNode (arena : Arena) (node : CodeNode) : Arena :=
  match arena.slot? node.id with
  | some slot => { arena with slots := arena.slots.set slot node }
  | none =>
    { arena with
      slots := arena.slots ++ [node]
      index := (node.id, arena.slots.length) :: arena.index }

def addEdge (arena : Arena) (edge : Edge) : Except DanglingEdge Arena :=
  match arena.slot? edge.source with
  | none => .error ⟨edge.id, edge.source⟩
  | some source =>
    match arena.slot? edge.target with
    | none => .error ⟨edge.id, edge.target⟩
    | some target => .ok { arena with arcs := arena.arcs ++ [⟨source, target, edge⟩] }

def contains (arena : Arena) (id : NodeId) : Bool :=
  (arena.slot? id).isSome

def node? (arena : Arena) (id : NodeId) : Option CodeNode :=
  (arena.slot? id).bind (arena.slots[·]?)

/-- The edges whose arcs have the slot of an identifier at one end, the latest first. -/
def directed (arena : Arena) (far : Arc → Nat) (id : NodeId) : List Edge :=
  match arena.slot? id with
  | none => []
  | some slot => ((arena.arcs.filter (far · == slot)).map (·.edge)).reverse

def edgesFrom (arena : Arena) : NodeId → List Edge :=
  arena.directed (·.source)

def edgesTo (arena : Arena) : NodeId → List Edge :=
  arena.directed (·.target)

/-- The arena holds the graph: its slots are the nodes, its index gives the place of every node and
nothing else, and each arc has the slots of the ends of its edge. -/
structure Holds (arena : Arena) (graph : DependencyGraph) : Prop where
  slots : arena.slots = graph.nodes
  edges : arena.arcs.map (·.edge) = graph.edges
  index : ∀ id slot, arena.slot? id = some slot ↔ graph.ids[slot]? = some id
  ends : ∀ arc ∈ arena.arcs,
    arena.slot? arc.edge.source = some arc.source ∧ arena.slot? arc.edge.target = some arc.target

variable {arena : Arena} {graph : DependencyGraph}

theorem holds_empty : Holds empty DependencyGraph.empty where
  slots := rfl
  edges := rfl
  index id slot := by simp [slot?, empty, ids, DependencyGraph.empty]
  ends arc mem := absurd mem List.not_mem_nil

/-! ## The index -/

theorem Holds.slot?_eq_none_iff (holds : Holds arena graph) (id : NodeId) :
    arena.slot? id = none ↔ id ∉ graph.ids := by
  rw [List.mem_iff_getElem?, Option.eq_none_iff_forall_ne_some, not_exists]
  exact forall_congr' fun slot => not_congr (holds.index id slot)

theorem Holds.slot?_inj (holds : Holds arena graph) {id other : NodeId} {slot : Nat}
    (found : arena.slot? id = some slot) :
    arena.slot? other = some slot ↔ other = id := by
  constructor
  · intro same
    have first := (holds.index id slot).mp found
    have second := (holds.index other slot).mp same
    exact Option.some.inj (second.symm.trans first)
  · rintro rfl
    exact found

/-! ## The two operations -/

theorem replaceNode_eq_set {node : CodeNode} {nodes : List CodeNode} {slot : Nat}
    (nodup : (nodes.map (·.id)).Nodup) (place : (nodes.map (·.id))[slot]? = some node.id) :
    replaceNode node nodes = nodes.set slot node := by
  refine List.ext_getElem? fun other => ?_
  rw [replaceNode, List.getElem?_map, List.getElem?_set]
  rw [List.getElem?_map] at place
  obtain ⟨old, old_eq, same⟩ := Option.map_eq_some_iff.mp place
  obtain ⟨bound, -⟩ := List.getElem?_eq_some_iff.mp old_eq
  by_cases hit : slot = other
  · subst hit
    rw [old_eq, Option.map_some, if_pos same, if_pos rfl, if_pos bound]
  · rw [if_neg hit]
    cases found : nodes[other]? with
    | none => rfl
    | some found_node =>
      have differ : found_node.id ≠ node.id := by
        intro equal
        have places : (nodes.map (·.id))[slot]? = (nodes.map (·.id))[other]? := by
          simp [old_eq, found, same, equal]
        exact hit ((List.getElem?_inj (by simpa using bound) nodup).mp places)
      simp [differ]

theorem Holds.addNode (holds : Holds arena graph) (node : CodeNode) :
    Holds (arena.addNode node) (graph.addNode node) := by
  unfold Arena.addNode DependencyGraph.addNode
  cases found : arena.slot? node.id with
  | some slot =>
    have place := (holds.index node.id slot).mp found
    have taken : node.id ∈ graph.nodes.map (·.id) := List.mem_of_getElem? place
    simp only [taken, dite_true]
    constructor
    · rw [holds.slots]
      exact (replaceNode_eq_set graph.ids_nodup place).symm
    · exact holds.edges
    · intro id other
      rw [ids, ids_replaceNode]
      exact holds.index id other
    · exact holds.ends
  | none =>
    have fresh := (holds.slot?_eq_none_iff node.id).mp found
    simp only [show node.id ∉ graph.nodes.map (·.id) from fresh, dite_false]
    have lookup : ∀ id, List.lookup id ((node.id, arena.slots.length) :: arena.index) =
        if id = node.id then some graph.nodes.length else arena.slot? id := by
      intro id
      rw [List.lookup_cons, holds.slots]
      by_cases same : id = node.id
      · simp [same]
      · have miss : (id == node.id) = false := by simpa using same
        rw [miss, if_neg same, slot?]
    constructor
    · rw [holds.slots]
    · exact holds.edges
    · intro id slot
      rw [slot?, lookup, ids, List.map_append, List.getElem?_append, List.length_map]
      by_cases same : id = node.id
      · subst same
        by_cases inside : slot < graph.nodes.length
        · have absent : (graph.nodes.map (·.id))[slot]? ≠ some node.id :=
            fun place => fresh (List.mem_of_getElem? place)
          rw [if_pos rfl, if_pos inside, Option.some.injEq]
          exact ⟨fun last => absurd last (Nat.ne_of_gt inside), fun place => absurd place absent⟩
        · rw [if_pos rfl, if_neg inside, List.map_singleton, List.getElem?_singleton,
            Option.some.injEq]
          split <;> simp <;> omega
      · rw [if_neg same, holds.index]
        by_cases inside : slot < graph.nodes.length
        · simp [inside, ids]
        · have beyond : graph.ids[slot]? = none := by simpa [ids] using inside
          simp [inside, beyond, List.getElem?_singleton, Ne.symm same]
    · intro arc mem
      obtain ⟨source, target⟩ := holds.ends arc mem
      have differ : ∀ id slot, arena.slot? id = some slot → id ≠ node.id := by
        rintro id slot place rfl
        simp [found] at place
      rw [slot?, slot?, lookup, lookup, if_neg (differ _ _ source), if_neg (differ _ _ target)]
      exact ⟨source, target⟩

/-- An edge is refused by both, for the same reason, or taken by both. -/
theorem Holds.addEdge (holds : Holds arena graph) (edge : Edge) :
    (∃ error, arena.addEdge edge = .error error ∧ graph.addEdge edge = .error error) ∨
      ∃ arena' graph', arena.addEdge edge = .ok arena' ∧ graph.addEdge edge = .ok graph' ∧
        Holds arena' graph' := by
  unfold Arena.addEdge DependencyGraph.addEdge
  cases source : arena.slot? edge.source with
  | none =>
    have absent := (holds.slot?_eq_none_iff _).mp source
    exact .inl ⟨_, rfl, dif_neg absent⟩
  | some tail =>
    have source_mem : edge.source ∈ graph.nodes.map (·.id) :=
      List.mem_of_getElem? ((holds.index _ _).mp source)
    rw [dif_pos source_mem]
    cases target : arena.slot? edge.target with
    | none =>
      have absent := (holds.slot?_eq_none_iff _).mp target
      exact .inl ⟨_, rfl, dif_neg absent⟩
    | some head =>
      have target_mem : edge.target ∈ graph.nodes.map (·.id) :=
        List.mem_of_getElem? ((holds.index _ _).mp target)
      refine .inr ⟨_, _, rfl, dif_pos target_mem, ?_⟩
      constructor
      · exact holds.slots
      · simp [holds.edges]
      · exact holds.index
      · intro arc mem
        rcases List.mem_append.mp mem with mem | mem
        · exact holds.ends arc mem
        · obtain rfl := List.mem_singleton.mp mem
          exact ⟨source, target⟩

/-! ## The queries -/

theorem Holds.contains_eq (holds : Holds arena graph) (id : NodeId) :
    arena.contains id = graph.contains id := by
  rw [Bool.eq_iff_iff, Arena.contains, DependencyGraph.contains, List.contains_iff_mem,
    Option.isSome_iff_ne_none, ne_eq, holds.slot?_eq_none_iff, not_not]

theorem Holds.node?_eq (holds : Holds arena graph) (id : NodeId) :
    arena.node? id = graph.node? id := by
  unfold Arena.node? DependencyGraph.node?
  cases found : arena.slot? id with
  | none =>
    have absent := (holds.slot?_eq_none_iff id).mp found
    symm
    simpa [ids] using absent
  | some slot =>
    have place := (holds.index id slot).mp found
    rw [ids, List.getElem?_map] at place
    obtain ⟨node, node_eq, rfl⟩ := Option.map_eq_some_iff.mp place
    rw [Option.bind_some, holds.slots, node_eq]
    exact (find?_key_of_mem graph.ids_nodup (List.mem_of_getElem? node_eq)).symm

/-- The arcs with the slot of an identifier at one end have the edges with this identifier there. -/
theorem Holds.directed_eq (holds : Holds arena graph) {far : Arc → Nat} {side : Edge → NodeId}
    (ends : ∀ arc ∈ arena.arcs, arena.slot? (side arc.edge) = some (far arc)) (id : NodeId) :
    arena.directed far id = (graph.edges.filter (side · == id)).reverse := by
  have kept : ∀ arc ∈ arena.arcs, ∀ slot, arena.slot? id = some slot →
      (far arc == slot) = (side arc.edge == id) := by
    intro arc mem slot found
    rw [Bool.eq_iff_iff, beq_iff_eq, beq_iff_eq, ← holds.slot?_inj found, ends arc mem,
      Option.some.injEq]
  rw [directed, ← holds.edges, List.filter_map]
  cases found : arena.slot? id with
  | none =>
    have none_left : arena.arcs.filter ((side · == id) ∘ Arc.edge) = [] := by
      refine List.filter_eq_nil_iff.mpr fun arc mem same => ?_
      have hit : side arc.edge = id := by simpa using same
      simp [← hit, ends arc mem] at found
    simp [none_left]
  | some slot =>
    exact congrArg (fun arcs => (arcs.map Arc.edge).reverse)
      (List.filter_congr fun arc mem => kept arc mem slot found)

theorem Holds.edgesFrom_eq (holds : Holds arena graph) (id : NodeId) :
    arena.edgesFrom id = graph.edgesFrom id :=
  holds.directed_eq (fun arc mem => (holds.ends arc mem).1) id

theorem Holds.edgesTo_eq (holds : Holds arena graph) (id : NodeId) :
    arena.edgesTo id = graph.edgesTo id :=
  holds.directed_eq (fun arc mem => (holds.ends arc mem).2) id

end Arena

end DependencyGraph

end ChangeImpact
