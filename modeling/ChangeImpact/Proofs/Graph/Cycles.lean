import ChangeImpact.Proofs.Graph.Circuit

/-!
# The cycles found are enough

A walk leaves a node when all its edges have been followed. By then each of them has led to a node
left before it or has closed a cycle, so that no way leads back to a node once the closing edges are
taken out.
-/

namespace ChangeImpact

namespace DependencyGraph

variable {graph : DependencyGraph} {source target : NodeId} {cycles : List (List NodeId)}
  {path left : List NodeId} {walk : Walk}

/-! ## Closing edges -/

/-- One of the cycles ends with an edge from `source` to `target`. -/
def Closes (cycles : List (List NodeId)) (source target : NodeId) : Prop :=
  ∃ cycle ∈ cycles, [source, target] <:+ cycle

instance (cycles : List (List NodeId)) (source target : NodeId) :
    Decidable (Closes cycles source target) :=
  inferInstanceAs (Decidable (∃ cycle ∈ cycles, [source, target] <:+ cycle))

theorem Closes.mono {more : List (List NodeId)} (closes : Closes cycles source target)
    (sub : cycles ⊆ more) : Closes more source target := by
  obtain ⟨cycle, mem, ends⟩ := closes
  exact ⟨cycle, sub mem, ends⟩

def StaysOpen (graph : DependencyGraph) (cycles : List (List NodeId)) (source target : NodeId) :
    Prop :=
  graph.HasEdge source target ∧ ¬ Closes cycles source target

def withoutClosingEdges (graph : DependencyGraph) : DependencyGraph where
  nodes := graph.nodes
  edges := graph.edges.filter fun edge => ¬ Closes graph.cycles edge.source edge.target
  ids_nodup := graph.ids_nodup
  ends_mem edge mem := graph.ends_mem edge (List.mem_of_mem_filter mem)

theorem hasEdge_withoutClosingEdges : graph.withoutClosingEdges.HasEdge source target ↔
    graph.StaysOpen graph.cycles source target := by
  constructor
  · rintro ⟨edge, mem, rfl, rfl⟩
    obtain ⟨listed, stays⟩ := List.mem_filter.mp mem
    exact ⟨⟨edge, listed, rfl, rfl⟩, by simpa using stays⟩
  · rintro ⟨⟨edge, mem, rfl, rfl⟩, stays⟩
    exact ⟨edge, List.mem_filter.mpr ⟨mem, by simpa using stays⟩, rfl, rfl⟩

/-! ## The order in which nodes are left -/

/-- Nodes that a walk has left, the last one first: every edge from one of them leads to a node left
before it or closes a cycle. -/
def LeftInOrder (graph : DependencyGraph) (cycles : List (List NodeId)) : List NodeId → Prop
  | [] => True
  | id :: before =>
    (∀ target, graph.HasEdge id target → target ∈ before ∨ Closes cycles id target) ∧
      LeftInOrder graph cycles before

theorem LeftInOrder.mono {more : List (List NodeId)} (order : LeftInOrder graph cycles left)
    (sub : cycles ⊆ more) : LeftInOrder graph more left := by
  induction left with
  | nil => trivial
  | cons id before ih =>
    obtain ⟨edges, rest⟩ := order
    exact ⟨fun target edge => (edges target edge).imp_right fun closes => closes.mono sub, ih rest⟩

theorem LeftInOrder.mem_of_staysOpen (order : LeftInOrder graph cycles left)
    (mem : source ∈ left) (stays : graph.StaysOpen cycles source target) : target ∈ left := by
  induction left with
  | nil => simp at mem
  | cons id before ih =>
    obtain ⟨edges, rest⟩ := order
    rcases List.mem_cons.mp mem with rfl | mem
    · exact List.mem_cons_of_mem _ ((edges target stays.1).resolve_right stays.2)
    · exact List.mem_cons_of_mem _ (ih rest mem)

theorem LeftInOrder.mem_of_reflTransGen (order : LeftInOrder graph cycles left)
    (mem : source ∈ left)
    (way : Relation.ReflTransGen (graph.StaysOpen cycles) source target) : target ∈ left := by
  induction way with
  | refl => exact mem
  | tail _ stays ih => exact order.mem_of_staysOpen ih stays

/-- From a node that was left, no open edges lead back to it. -/
theorem LeftInOrder.not_transGen (order : LeftInOrder graph cycles left) {id : NodeId}
    (mem : id ∈ left) : ¬ Relation.TransGen (graph.StaysOpen cycles) id id := by
  induction left with
  | nil => simp at mem
  | cons last before ih =>
    obtain ⟨edges, rest⟩ := order
    by_cases earlier : id ∈ before
    · exact ih rest earlier
    · obtain rfl : id = last := (List.mem_cons.mp mem).resolve_right earlier
      intro way
      obtain ⟨next, stays, back⟩ := Relation.TransGen.head'_iff.mp way
      have left : next ∈ before := (edges next stays.1).resolve_right stays.2
      exact earlier (rest.mem_of_reflTransGen left back)

/-! ## The walk -/

/-- A walk with a path under way and nodes that it has left, the last one first. -/
structure UnderWay (graph : DependencyGraph) (path left : List NodeId) (walk : Walk) : Prop where
  visited : ∀ id, id ∈ walk.visited ↔ id ∈ path ∨ id ∈ left
  order : LeftInOrder graph walk.cycles left
  circuits : ∀ cycle ∈ walk.cycles, graph.IsCircuit cycle

theorem UnderWay.close {tail : List NodeId} (isPath : graph.IsPath (source :: tail))
    (underWay : UnderWay graph (source :: tail) left walk) (edge : graph.HasEdge source target)
    (mem : target ∈ source :: tail) :
    UnderWay graph (source :: tail) left
      { walk with cycles := closedCycle (source :: tail) target :: walk.cycles } where
  visited := underWay.visited
  order := underWay.order.mono (List.subset_cons_self _ _)
  circuits := by
    intro cycle listed
    rcases List.mem_cons.mp listed with rfl | listed
    · exact isPath.isCircuit_closedCycle mem edge
    · exact underWay.circuits cycle listed

theorem UnderWay.enter (underWay : UnderWay graph path left walk) (target : NodeId) :
    UnderWay graph (target :: path) left { walk with visited := target :: walk.visited } where
  visited := by simp [underWay.visited, or_assoc]
  order := underWay.order
  circuits := underWay.circuits

theorem UnderWay.leave (underWay : UnderWay graph (target :: path) left walk)
    (done : ∀ next ∈ graph.successors target, next ∈ left ∨ Closes walk.cycles target next) :
    UnderWay graph path (target :: left) walk where
  visited id := by
    rw [underWay.visited, List.mem_cons, List.mem_cons]
    tauto
  order := ⟨fun next edge => done next (mem_successors.mpr edge), underWay.order⟩
  circuits := underWay.circuits

/-- Following edges from the end of a path: nothing found is forgotten, and each edge leads to a
node that has been left by then or closes a cycle. -/
theorem underWay_explore {fuel : Nat} {targets tail : List NodeId}
    (isPath : graph.IsPath (source :: tail))
    (enough : graph.nodes.length ≤ fuel + tail.length)
    (edges : ∀ next ∈ targets, graph.HasEdge source next)
    (underWay : UnderWay graph (source :: tail) left walk) :
    let next := graph.explore fuel (source :: tail) targets walk
    ∃ later, UnderWay graph (source :: tail) later next ∧ left ⊆ later ∧
      walk.cycles ⊆ next.cycles ∧
        ∀ target ∈ targets, target ∈ later ∨ Closes next.cycles source target := by
  generalize path_eq : source :: tail = path at isPath underWay ⊢
  fun_induction explore graph fuel path targets walk generalizing source tail left with
  | case1 fuel path walk =>
    exact ⟨left, underWay, List.Subset.refl _, List.Subset.refl _, by simp⟩
  | case2 fuel path target rest walk onPath ih =>
    subst path_eq
    have mem : target ∈ source :: tail := by simpa using onPath
    have closed := underWay.close isPath (edges target List.mem_cons_self) mem
    obtain ⟨later, next, kept, found, done⟩ :=
      ih enough (fun other listed => edges other (List.mem_cons_of_mem _ listed)) rfl isPath closed
    have here : Closes (closedCycle (source :: tail) target :: walk.cycles) source target :=
      ⟨_, List.mem_cons_self, suffix_closedCycle mem⟩
    refine ⟨later, next, kept, List.Subset.trans (List.subset_cons_self _ _) found, ?_⟩
    intro other listed
    rcases List.mem_cons.mp listed with rfl | listed
    · exact .inr (here.mono found)
    · exact done other listed
  | case3 fuel path target rest walk offPath visited ih =>
    subst path_eq
    have fresh : target ∉ source :: tail := by simpa using offPath
    have past : target ∈ left :=
      ((underWay.visited target).mp (by simpa using visited)).resolve_left fresh
    obtain ⟨later, next, kept, found, done⟩ :=
      ih enough (fun other listed => edges other (List.mem_cons_of_mem _ listed)) rfl isPath
        underWay
    refine ⟨later, next, kept, found, ?_⟩
    intro other listed
    rcases List.mem_cons.mp listed with rfl | listed
    · exact .inl (kept past)
    · exact done other listed
  | case4 path target rest walk offPath unvisited ih =>
    -- The path is as long as the graph is large, so that no node is left to enter.
    subst path_eq
    have fresh : target ∉ source :: tail := by simpa using offPath
    have longer := isPath.cons (edges target List.mem_cons_self) fresh
    have bound := longer.length_le
    simp only [List.length_cons] at bound
    omega
  | case5 path target rest walk offPath unvisited fuel inner outer =>
    -- The walk below `target` ends with all its edges done, so `target` can be left before the walk
    -- goes on with the edges beside it.
    subst path_eq
    have edge : graph.HasEdge source target := edges target List.mem_cons_self
    have fresh : target ∉ source :: tail := by simpa using offPath
    have deeper : graph.nodes.length ≤ fuel + (source :: tail).length := by
      rw [List.length_cons]
      omega
    obtain ⟨between, entered, kept, found, done⟩ :=
      inner deeper (fun next listed => mem_successors.mp listed) rfl (isPath.cons edge fresh)
        (underWay.enter target)
    obtain ⟨later, next, kept', found', done'⟩ :=
      outer enough (fun other listed => edges other (List.mem_cons_of_mem _ listed)) rfl isPath
        (entered.leave done)
    have past : target ∈ later := kept' List.mem_cons_self
    refine ⟨later, next, ?_, List.Subset.trans found found', ?_⟩
    · exact List.Subset.trans kept fun id mem => kept' (List.mem_cons_of_mem _ mem)
    · intro other listed
      rcases List.mem_cons.mp listed with rfl | listed
      · exact .inl past
      · exact done' other listed

theorem underWay_exploreFrom (underWay : UnderWay graph [] left walk) {id : NodeId}
    (mem : id ∈ graph.ids) :
    ∃ later, UnderWay graph [] later (graph.exploreFrom walk id) ∧ left ⊆ later ∧ id ∈ later := by
  unfold exploreFrom
  by_cases visited : id ∈ walk.visited
  · have past : id ∈ left := by simpa using (underWay.visited id).mp visited
    exact ⟨left, by simpa [visited] using underWay, List.Subset.refl _, past⟩
  · have walked := underWay_explore (IsPath.single mem) (Nat.le_refl graph.nodes.length)
      (fun next listed => mem_successors.mp listed) (underWay.enter id)
    obtain ⟨later, next, kept, -, done⟩ := walked
    refine ⟨id :: later, ?_, List.Subset.trans kept (List.subset_cons_self _ _), List.mem_cons_self⟩
    simpa [visited] using next.leave done

theorem underWay_foldl (underWay : UnderWay graph [] left walk) {starts : List NodeId}
    (among : ∀ id ∈ starts, id ∈ graph.ids) :
    ∃ later, UnderWay graph [] later (starts.foldl graph.exploreFrom walk) ∧ left ⊆ later ∧
      ∀ id ∈ starts, id ∈ later := by
  induction starts generalizing left walk with
  | nil => exact ⟨left, underWay, List.Subset.refl _, by simp⟩
  | cons id rest ih =>
    obtain ⟨between, first, kept, here⟩ :=
      underWay_exploreFrom underWay (among id List.mem_cons_self)
    obtain ⟨later, last, kept', others⟩ :=
      ih first fun other listed => among other (List.mem_cons_of_mem _ listed)
    refine ⟨later, last, List.Subset.trans kept kept', ?_⟩
    intro other listed
    rcases List.mem_cons.mp listed with rfl | listed
    · exact kept' here
    · exact others other listed

/-! ## The cycles of a graph -/

theorem exists_leftInOrder (graph : DependencyGraph) :
    (∃ left, LeftInOrder graph graph.cycles left ∧ ∀ id ∈ graph.ids, id ∈ left) ∧
      ∀ cycle ∈ graph.cycles, graph.IsCircuit cycle := by
  have start : UnderWay graph [] [] ⟨[], []⟩ := ⟨by simp, trivial, by simp⟩
  have among : ∀ id ∈ graph.ids, id ∈ graph.ids := fun _ mem => mem
  obtain ⟨left, last, -, all⟩ := underWay_foldl start among
  have listed : ∀ cycle, cycle ∈ graph.cycles ↔
      cycle ∈ (graph.ids.foldl graph.exploreFrom ⟨[], []⟩).cycles := by
    intro cycle
    exact List.mem_reverse
  refine ⟨⟨left, last.order.mono fun cycle mem => (listed cycle).mpr mem, all⟩, ?_⟩
  intro cycle mem
  exact last.circuits cycle ((listed cycle).mp mem)

/-- Taking out the last edge of every cycle found leaves no way back to any node. In particular the
graph is acyclic exactly if no cycle is found. -/
theorem isAcyclic_withoutClosingEdges (graph : DependencyGraph) :
    graph.withoutClosingEdges.IsAcyclic ∧ (graph.cycles = [] ↔ graph.IsAcyclic) := by
  obtain ⟨⟨left, order, all⟩, circuits⟩ := exists_leftInOrder graph
  have acyclic : ∀ id, ¬ Relation.TransGen (graph.StaysOpen graph.cycles) id id := by
    intro id way
    obtain ⟨next, stays, -⟩ := Relation.TransGen.head'_iff.mp way
    exact order.not_transGen (all id stays.1.source_mem) way
  refine ⟨?_, ?_, ?_⟩
  · intro id way
    have open_of_edge : graph.withoutClosingEdges.HasEdge ≤ graph.StaysOpen graph.cycles :=
      fun source target edge => hasEdge_withoutClosingEdges.mp edge
    exact acyclic id (Relation.TransGen.mono open_of_edge id id way)
  · intro none id way
    have open_of_edge : graph.HasEdge ≤ graph.StaysOpen graph.cycles :=
      fun source target edge => ⟨edge, by simp [none, Closes]⟩
    exact acyclic id (Relation.TransGen.mono open_of_edge id id way)
  · intro noWay
    refine List.eq_nil_iff_forall_not_mem.mpr fun cycle mem => ?_
    obtain ⟨id, way⟩ := (circuits cycle mem).transGen
    exact noWay id way

end DependencyGraph

end ChangeImpact
