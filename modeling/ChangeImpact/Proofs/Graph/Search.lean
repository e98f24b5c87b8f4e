import ChangeImpact.Proofs.Classes
import ChangeImpact.Proofs.Graph.Cycles

/-!
# The search for cycles as a loop

The recursive walk is a loop over a stack. Each frame of the stack holds a node and the number of
its edges looked at so far; one step begins at a node, looks at the next edge of the top frame, or
takes the top frame away. The loop and the walk find the same cycles. At every step the stack is a
simple path of the graph, and by the end every edge has been looked at exactly once.
-/

namespace ChangeImpact

namespace DependencyGraph

structure Frame where
  node : NodeId
  looked : Nat
  deriving DecidableEq, Repr

/-- A state of the loop: the nodes that it has not yet begun at, the stack with its top first, the
set of the nodes on it, the nodes visited, and the cycles in the order in which they were found. -/
structure Search where
  starts : List NodeId
  stack : List Frame
  onStack : List NodeId
  visited : List NodeId
  cycles : List (List NodeId)
  deriving DecidableEq, Repr

variable {graph : DependencyGraph}

namespace Search

def initial (graph : DependencyGraph) : Search :=
  ⟨graph.ids, [], [], [], []⟩

def path (s : Search) : List NodeId :=
  s.stack.map (·.node)

/-- The place of a node on the stack, counted from the bottom. -/
def position? (s : Search) (id : NodeId) : Option Nat :=
  s.path.reverse.findIdx? (· == id)

def edge? (graph : DependencyGraph) (s : Search) : Option Edge :=
  s.stack.head?.bind fun top => (graph.edgesFrom top.node)[top.looked]?

def beginAt (s : Search) (id : NodeId) (later : List NodeId) : Search :=
  if s.visited.contains id then { s with starts := later }
  else { s with
    starts := later, stack := [⟨id, 0⟩], onStack := [id], visited := id :: s.visited }

def advance (s : Search) (top : Frame) (below : List Frame) : Search :=
  { s with stack := { top with looked := top.looked + 1 } :: below }

/-- Follows an edge to `target`. A node that is on the stack closes a cycle: the stack from its
place on, and the node once more. Were the node not found there, the place would be the bottom. -/
def follow (s : Search) (target : NodeId) : Search :=
  if s.onStack.contains target then
    let place := (s.position? target).getD 0
    { s with cycles := s.cycles ++ [s.path.reverse.drop place ++ [target]] }
  else if s.visited.contains target then s
  else { s with
    stack := ⟨target, 0⟩ :: s.stack
    onStack := target :: s.onStack
    visited := target :: s.visited }

def step (graph : DependencyGraph) (s : Search) : Option Search :=
  match s.stack with
  | [] =>
    match s.starts with
    | [] => none
    | id :: later => some (s.beginAt id later)
  | top :: below =>
    match (graph.edgesFrom top.node)[top.looked]? with
    | none => some { s with stack := below, onStack := s.onStack.erase top.node }
    | some edge => some ((s.advance top below).follow edge.target)

/-- Steps taken one after another, from each of the `states` in turn to `last`. -/
inductive RunsTo (graph : DependencyGraph) : Search → List Search → Search → Prop where
  | refl (s : Search) : RunsTo graph s [] s
  | cons {s next last : Search} {states : List Search} (taken : s.step graph = some next)
      (later : RunsTo graph next states last) : RunsTo graph s (s :: states) last

theorem RunsTo.trans {s mid last : Search} {states more : List Search}
    (first : RunsTo graph s states mid) (second : RunsTo graph mid more last) :
    RunsTo graph s (states ++ more) last := by
  induction first with
  | refl s => exact second
  | cons taken _ ih => exact .cons taken (ih second)

theorem RunsTo.of_step {s next : Search} (taken : s.step graph = some next) :
    RunsTo graph s [s] next :=
  .cons taken (.refl next)

/-! ## The loop and the walk -/

def ofWalk (starts : List NodeId) (walk : Walk) (stack : List Frame) : Search :=
  ⟨starts, stack, stack.map (·.node), walk.visited, walk.cycles.reverse⟩

variable {starts : List NodeId} {walk : Walk} {source target : NodeId} {looked : Nat}
  {stack below : List Frame}

/-- The cycle cut out of the stack is the one that the walk reports. -/
theorem drop_position?_eq {s : Search} (nodup : s.path.Nodup) (mem : target ∈ s.path) :
    s.path.reverse.drop ((s.position? target).getD 0) ++ [target] =
      closedCycle s.path target := by
  obtain ⟨earlier, cut⟩ := exists_takeWhile_append mem
  generalize later_eq : s.path.takeWhile (· != target) = later at cut
  have nodes : s.path.reverse = earlier.reverse ++ target :: later.reverse := by
    rw [cut]
    simp
  have fresh : ∀ id ∈ earlier.reverse, (id == target) = false := by
    intro id listed
    rw [cut, List.nodup_append, List.nodup_cons] at nodup
    have differ : target ≠ id := fun same => nodup.2.1.1 (same ▸ List.mem_reverse.mp listed)
    simpa using differ.symm
  have place : s.position? target = some earlier.length := by
    rw [position?, nodes, List.findIdx?_append, List.findIdx?_eq_none_iff.mpr fresh,
      List.findIdx?_cons]
    simp
  rw [place, Option.getD_some, nodes, closedCycle, later_eq]
  simp

theorem follow_of_mem (nodup : (stack.map (·.node)).Nodup) (mem : target ∈ stack.map (·.node)) :
    (ofWalk starts walk stack).follow target =
      ofWalk starts
        { walk with cycles := closedCycle (stack.map (·.node)) target :: walk.cycles } stack := by
  have cycle := @drop_position?_eq target (ofWalk starts walk stack) nodup mem
  have onStack : (ofWalk starts walk stack).onStack.contains target = true := by
    simpa [ofWalk] using mem
  unfold follow
  rw [if_pos onStack]
  dsimp only
  rw [cycle]
  simp [ofWalk, path]

theorem follow_of_visited (fresh : target ∉ stack.map (·.node)) (past : target ∈ walk.visited) :
    (ofWalk starts walk stack).follow target = ofWalk starts walk stack := by
  have offStack : ¬ (ofWalk starts walk stack).onStack.contains target = true := by
    simpa [ofWalk] using fresh
  unfold follow
  rw [if_neg offStack, if_pos (by simpa [ofWalk] using past)]

theorem follow_of_not_visited (fresh : target ∉ stack.map (·.node))
    (new : target ∉ walk.visited) :
    (ofWalk starts walk stack).follow target =
      ofWalk starts { walk with visited := target :: walk.visited } (⟨target, 0⟩ :: stack) := by
  have offStack : ¬ (ofWalk starts walk stack).onStack.contains target = true := by
    simpa [ofWalk] using fresh
  unfold follow
  rw [if_neg offStack, if_neg (by simpa [ofWalk] using new)]
  rfl

theorem step_of_edge {edge : Edge} (here : (graph.edgesFrom source)[looked]? = some edge) :
    (ofWalk starts walk (⟨source, looked⟩ :: below)).step graph =
      some ((ofWalk starts walk (⟨source, looked + 1⟩ :: below)).follow edge.target) := by
  simp only [step, ofWalk, here]
  rfl

theorem step_of_no_edge (past : (graph.edgesFrom source)[looked]? = none) :
    (ofWalk starts walk (⟨source, looked⟩ :: below)).step graph =
      some (ofWalk starts walk below) := by
  simp [step, ofWalk, past]

theorem hasEdge_of_getElem? {edge : Edge} (here : (graph.edgesFrom source)[looked]? = some edge) :
    graph.HasEdge source edge.target :=
  mem_successors.mp (List.mem_map_of_mem (List.mem_of_getElem? here))

/-- The edges of a node that have not been looked at, one first or none. -/
theorem exists_edge_of_drop_successors {rest : List NodeId}
    (left : (graph.successors source).drop looked = target :: rest) :
    ∃ edge, (graph.edgesFrom source)[looked]? = some edge ∧ edge.target = target ∧
      (graph.successors source).drop (looked + 1) = rest := by
  have place : (graph.successors source)[looked]? = some target := by
    rw [← List.head?_drop, left, List.head?_cons]
  rw [successors, List.getElem?_map] at place
  obtain ⟨edge, here, target_eq⟩ := Option.map_eq_some_iff.mp place
  refine ⟨edge, here, target_eq, ?_⟩
  rw [← List.tail_drop, left, List.tail_cons]

/-- From a frame with some edges left the loop does what the walk does along them, and takes the
frame away. -/
theorem exists_runsTo_explore {fuel : Nat} {targets tail : List NodeId}
    (isPath : graph.IsPath (source :: tail))
    (enough : graph.nodes.length ≤ fuel + tail.length)
    (nodes : below.map (·.node) = tail)
    (left : (graph.successors source).drop looked = targets) :
    ∃ states, RunsTo graph (ofWalk starts walk (⟨source, looked⟩ :: below)) states
      (ofWalk starts (graph.explore fuel (source :: tail) targets walk) below) := by
  generalize path_eq : source :: tail = path at isPath ⊢
  fun_induction explore graph fuel path targets walk generalizing source tail looked below with
  | case1 fuel path walk =>
    have past : (graph.edgesFrom source)[looked]? = none := by
      simpa [successors] using left
    exact ⟨_, .of_step (step_of_no_edge past)⟩
  | case2 fuel path target rest walk onPath ih =>
    subst path_eq
    obtain ⟨edge, here, rfl, others⟩ := exists_edge_of_drop_successors left
    have mem : edge.target ∈ source :: tail := by simpa using onPath
    have taken := @step_of_edge graph starts walk source looked below edge here
    rw [follow_of_mem (by simpa [nodes] using isPath.nodup) (by simpa [nodes] using mem),
      List.map_cons, nodes] at taken
    obtain ⟨states, later⟩ := ih enough nodes others rfl isPath
    exact ⟨_, .cons taken later⟩
  | case3 fuel path target rest walk offPath visited ih =>
    subst path_eq
    obtain ⟨edge, here, rfl, others⟩ := exists_edge_of_drop_successors left
    have fresh : edge.target ∉ source :: tail := by simpa using offPath
    have taken := @step_of_edge graph starts walk source looked below edge here
    rw [follow_of_visited (by simpa [nodes] using fresh) (by simpa using visited)] at taken
    obtain ⟨states, later⟩ := ih enough nodes others rfl isPath
    exact ⟨_, .cons taken later⟩
  | case4 path target rest walk offPath unvisited ih =>
    -- The path is as long as the graph is large, so that no node is left to enter.
    subst path_eq
    obtain ⟨edge, here, rfl, -⟩ := exists_edge_of_drop_successors left
    have fresh : edge.target ∉ source :: tail := by simpa using offPath
    have longer := isPath.cons (hasEdge_of_getElem? here) fresh
    have bound := longer.length_le
    simp only [List.length_cons] at bound
    omega
  | case5 path target rest walk offPath unvisited fuel inner outer =>
    subst path_eq
    obtain ⟨edge, here, rfl, others⟩ := exists_edge_of_drop_successors left
    have fresh : edge.target ∉ source :: tail := by simpa using offPath
    have taken := @step_of_edge graph starts walk source looked below edge here
    rw [follow_of_not_visited (by simpa [nodes] using fresh) (by simpa using unvisited)] at taken
    have deeper : graph.nodes.length ≤ fuel + (source :: tail).length := by
      rw [List.length_cons]
      omega
    have deeperNodes : (⟨source, looked + 1⟩ :: below).map Frame.node = source :: tail := by
      rw [List.map_cons, nodes]
    obtain ⟨entered, down⟩ := inner deeper deeperNodes List.drop_zero rfl
      (isPath.cons (hasEdge_of_getElem? here) fresh)
    obtain ⟨states, later⟩ := outer enough nodes others rfl isPath
    exact ⟨_, .cons taken (down.trans later)⟩

theorem exists_runsTo_foldl (among : ∀ id ∈ starts, id ∈ graph.ids) :
    ∃ states, RunsTo graph (ofWalk starts walk []) states
      (ofWalk [] (starts.foldl graph.exploreFrom walk) []) := by
  induction starts generalizing walk with
  | nil => exact ⟨_, .refl _⟩
  | cons id later ih =>
    have taken : (ofWalk (id :: later) walk []).step graph =
        some ((ofWalk (id :: later) walk []).beginAt id later) := rfl
    rw [List.foldl_cons]
    by_cases past : id ∈ walk.visited
    · have skipped : (ofWalk (id :: later) walk []).beginAt id later = ofWalk later walk [] :=
        if_pos (by simpa [ofWalk] using past)
      rw [skipped] at taken
      have same : graph.exploreFrom walk id = walk := if_pos (by simpa using past)
      obtain ⟨states, rest⟩ := @ih walk fun other mem => among other (List.mem_cons_of_mem _ mem)
      rw [same]
      exact ⟨_, .cons taken rest⟩
    · have entered : (ofWalk (id :: later) walk []).beginAt id later =
          ofWalk later { walk with visited := id :: walk.visited } [⟨id, 0⟩] :=
        if_neg (by simpa [ofWalk] using past)
      rw [entered] at taken
      have walked : graph.exploreFrom walk id = graph.explore graph.nodes.length [id]
          (graph.successors id) { walk with visited := id :: walk.visited } :=
        if_neg (by simpa using past)
      obtain ⟨states, around⟩ := @exists_runsTo_explore graph later
        { walk with visited := id :: walk.visited } id 0 [] graph.nodes.length _ []
        (.single (among id List.mem_cons_self)) (Nat.le_refl _) rfl List.drop_zero
      obtain ⟨more, rest⟩ := @ih (graph.exploreFrom walk id) fun other mem =>
        among other (List.mem_cons_of_mem _ mem)
      rw [← walked] at around
      exact ⟨_, .cons taken (around.trans rest)⟩

/-- The loop comes to an end, with the cycles that the walk finds. -/
theorem exists_runsTo_cycles (graph : DependencyGraph) :
    ∃ states last, RunsTo graph (initial graph) states last ∧ last.step graph = none ∧
      last.cycles = graph.cycles := by
  obtain ⟨states, runs⟩ := @exists_runsTo_foldl graph graph.ids ⟨[], []⟩ fun _ mem => mem
  exact ⟨states, _, runs, rfl, rfl⟩

/-! ## What a step does -/

/-- The three kinds of steps. -/
theorem step_cases {s next : Search} (taken : s.step graph = some next) :
    (∃ id later, s.stack = [] ∧ s.starts = id :: later ∧ next = s.beginAt id later) ∨
    (∃ top below, s.stack = top :: below ∧ (graph.edgesFrom top.node)[top.looked]? = none ∧
      next = { s with stack := below, onStack := s.onStack.erase top.node }) ∨
    ∃ top below edge, s.stack = top :: below ∧
      (graph.edgesFrom top.node)[top.looked]? = some edge ∧
      next = (s.advance top below).follow edge.target := by
  unfold step at taken
  cases stack : s.stack with
  | nil =>
    cases starts : s.starts with
    | nil => simp [stack, starts] at taken
    | cons id later =>
      simp only [stack, starts, Option.some.injEq] at taken
      exact .inl ⟨id, later, rfl, rfl, taken.symm⟩
  | cons top below =>
    cases here : (graph.edgesFrom top.node)[top.looked]? with
    | none =>
      simp only [stack, here, Option.some.injEq] at taken
      exact .inr (.inl ⟨top, below, rfl, here, taken.symm⟩)
    | some edge =>
      simp only [stack, here, Option.some.injEq] at taken
      exact .inr (.inr ⟨top, below, edge, rfl, here, taken.symm⟩)

/-- The three ends of an edge that is followed: a node on the stack, one visited before, a new
one. -/
theorem follow_cases (s : Search) (target : NodeId) :
    (target ∈ s.onStack ∧ ∃ cycle, s.follow target = { s with cycles := s.cycles ++ [cycle] }) ∨
    (target ∉ s.onStack ∧ target ∈ s.visited ∧ s.follow target = s) ∨
    target ∉ s.onStack ∧ target ∉ s.visited ∧ s.follow target = { s with
      stack := ⟨target, 0⟩ :: s.stack
      onStack := target :: s.onStack
      visited := target :: s.visited } := by
  by_cases on : target ∈ s.onStack
  · exact .inl ⟨on, _, if_pos (by simpa using on)⟩
  · by_cases past : target ∈ s.visited
    · exact .inr (.inl ⟨on, past, by simp [follow, on, past]⟩)
    · exact .inr (.inr ⟨on, past, by simp [follow, on, past]⟩)

/-- What holds of every state of the loop: the nodes on the stack are a simple path, and each node
has been visited or is one that the loop has yet to begin at. -/
structure Sound (graph : DependencyGraph) (s : Search) : Prop where
  isPath : graph.IsPath s.path
  onStack : s.onStack = s.path
  starts : ∀ id ∈ s.starts, id ∈ graph.ids
  begun : ∀ id ∈ graph.ids, id ∈ s.starts ∨ id ∈ s.visited

theorem sound_initial (graph : DependencyGraph) : Sound graph (initial graph) where
  isPath := ⟨.nil, by simp [initial, path], .nil⟩
  onStack := rfl
  starts _ mem := mem
  begun _ mem := .inl mem

theorem Sound.beginAt {s : Search} {id : NodeId} {later : List NodeId} (sound : Sound graph s)
    (starts : s.starts = id :: later) : Sound graph (s.beginAt id later) := by
  have among : ∀ other ∈ later, other ∈ graph.ids := fun other mem =>
    sound.starts other (starts ▸ List.mem_cons_of_mem _ mem)
  have begun : ∀ other ∈ graph.ids, other ∈ later ∨ other = id ∨ other ∈ s.visited := by
    intro other mem
    rcases sound.begun other mem with waiting | past
    · rw [starts] at waiting
      rcases List.mem_cons.mp waiting with rfl | waiting
      · exact .inr (.inl rfl)
      · exact .inl waiting
    · exact .inr (.inr past)
  unfold Search.beginAt
  split
  · next past =>
    refine ⟨sound.isPath, sound.onStack, among, fun other mem => ?_⟩
    rcases begun other mem with waiting | rfl | visited
    · exact .inl waiting
    · exact .inr (by simpa using past)
    · exact .inr visited
  · refine ⟨.single (sound.starts id (starts ▸ List.mem_cons_self)), rfl, among, ?_⟩
    intro other mem
    exact (begun other mem).imp_right List.mem_cons.mpr

theorem Sound.leave {s : Search} {top : Frame} {below : List Frame} (sound : Sound graph s)
    (stack : s.stack = top :: below) :
    Sound graph { s with stack := below, onStack := s.onStack.erase top.node } where
  isPath := by
    have isPath := sound.isPath
    rw [path, stack] at isPath
    exact ⟨isPath.nodup.of_cons, fun id mem => isPath.ids id (List.mem_cons_of_mem _ mem),
      isPath.edges.of_cons⟩
  onStack := by
    rw [sound.onStack, path, stack]
    exact List.erase_cons_head ..
  starts := sound.starts
  begun := sound.begun

theorem Sound.advance {s : Search} {top : Frame} {below : List Frame} (sound : Sound graph s)
    (stack : s.stack = top :: below) : Sound graph (s.advance top below) := by
  have path_eq : (s.advance top below).path = s.path := by
    rw [path, path, stack]
    rfl
  exact ⟨path_eq ▸ sound.isPath, path_eq ▸ sound.onStack, sound.starts, sound.begun⟩

theorem Sound.follow {s : Search} {tail : List NodeId} (sound : Sound graph s)
    (path_eq : s.path = source :: tail) (edge : graph.HasEdge source target) :
    Sound graph (s.follow target) := by
  rcases follow_cases s target with ⟨-, cycle, next⟩ | ⟨-, -, next⟩ | ⟨fresh, -, next⟩
  · rw [next]
    exact ⟨sound.isPath, sound.onStack, sound.starts, sound.begun⟩
  · rwa [next]
  · have isPath := sound.isPath
    rw [sound.onStack] at fresh
    rw [path_eq] at isPath fresh
    have longer : graph.IsPath (target :: s.path) := path_eq ▸ isPath.cons edge fresh
    rw [next]
    exact ⟨longer, congrArg (target :: ·) sound.onStack, sound.starts,
      fun id mem => (sound.begun id mem).imp_right (List.mem_cons_of_mem _)⟩

theorem Sound.step {s next : Search} (sound : Sound graph s) (taken : s.step graph = some next) :
    Sound graph next := by
  rcases step_cases taken with ⟨id, later, -, starts, rfl⟩ | ⟨top, below, stack, -, rfl⟩ |
    ⟨top, below, edge, stack, here, rfl⟩
  · exact sound.beginAt starts
  · exact sound.leave stack
  · exact (sound.advance stack).follow rfl (hasEdge_of_getElem? here)

/-- A node that is on the stack is found there. -/
theorem Sound.position?_isSome {s : Search} (sound : Sound graph s) (mem : target ∈ s.onStack) :
    (s.position? target).isSome = true := by
  rw [sound.onStack] at mem
  rw [position?, List.findIdx?_isSome, List.any_reverse, List.any_eq_true]
  exact ⟨target, mem, beq_self_eq_true _⟩

/-! ## What is left to do -/

def unvisited (graph : DependencyGraph) (visited : List NodeId) : List NodeId :=
  graph.ids.filter fun id => !visited.contains id

/-- The edges not yet looked at: those of the nodes not visited, and the later ones of the nodes on
the stack. -/
def pending (graph : DependencyGraph) (visited : List NodeId) (stack : List Frame) : List Edge :=
  (unvisited graph visited).flatMap graph.edgesFrom ++
    stack.flatMap fun frame => (graph.edgesFrom frame.node).drop frame.looked

/-- The number of steps to the end: one for each node to begin at, one for each edge to look at, and
for each node on the stack or not yet visited one to take it away. -/
def stepsLeft (graph : DependencyGraph) (s : Search) : Nat :=
  s.starts.length + (pending graph s.visited s.stack).length +
    ((unvisited graph s.visited).length + s.stack.length)

theorem unvisited_perm {id : NodeId} {visited : List NodeId} (mem : id ∈ graph.ids)
    (new : id ∉ visited) :
    (unvisited graph visited).Perm (id :: unvisited graph (id :: visited)) := by
  have nodup : (unvisited graph visited).Nodup := List.Nodup.filter _ graph.ids_nodup
  have listed : id ∈ unvisited graph visited :=
    List.mem_filter.mpr ⟨mem, by simpa using new⟩
  have rest : (unvisited graph visited).erase id = unvisited graph (id :: visited) := by
    rw [nodup.erase_eq_filter, unvisited, unvisited, List.filter_filter]
    refine List.filter_congr fun other _ => ?_
    simp [Bool.beq_eq_decide_eq, bne]
  exact rest ▸ List.perm_cons_erase listed

theorem pending_enter {id : NodeId} {visited : List NodeId} {stack : List Frame}
    (mem : id ∈ graph.ids) (new : id ∉ visited) :
    (pending graph visited stack).Perm (pending graph (id :: visited) (⟨id, 0⟩ :: stack)) := by
  have moved := ((unvisited_perm mem new).flatMap_right graph.edgesFrom).append_right
    (stack.flatMap fun frame => (graph.edgesFrom frame.node).drop frame.looked)
  refine moved.trans ?_
  rw [pending, List.flatMap_cons, List.flatMap_cons, List.drop_zero, ← List.append_assoc]
  exact List.perm_append_comm.append_right _

theorem pending_look {visited : List NodeId} (top : Frame) (below : List Frame) :
    (pending graph visited (top :: below)).Perm
      ((graph.edgesFrom top.node)[top.looked]?.toList ++
        pending graph visited ({ top with looked := top.looked + 1 } :: below)) := by
  rw [pending, pending, List.flatMap_cons, List.flatMap_cons,
    List.drop_eq_getElem?_toList_append, List.append_assoc, ← List.append_assoc,
    ← List.append_assoc _ _ (_ ++ _)]
  exact List.perm_append_comm.append_right _

/-- Between two states the given edges are looked at and a number of steps is taken, and no more
cycles are found than edges looked at. -/
structure Looks (graph : DependencyGraph) (s : Search) (edges : List Edge) (steps : Nat)
    (next : Search) : Prop where
  pending : (pending graph s.visited s.stack).Perm (edges ++ pending graph next.visited next.stack)
  steps : stepsLeft graph s = steps + stepsLeft graph next
  cycles : next.cycles.length ≤ s.cycles.length + edges.length

theorem Looks.refl (s : Search) : Looks graph s [] 0 s where
  pending := .refl _
  steps := (Nat.zero_add _).symm
  cycles := Nat.le_refl _

theorem Looks.trans {s mid last : Search} {edges more : List Edge} {n m : Nat}
    (first : Looks graph s edges n mid) (second : Looks graph mid more m last) :
    Looks graph s (edges ++ more) (n + m) last where
  pending := by
    rw [List.append_assoc]
    exact first.pending.trans (second.pending.append_left edges)
  steps := by
    rw [first.steps, second.steps, Nat.add_assoc]
  cycles := by
    have one := first.cycles
    have two := second.cycles
    rw [List.length_append]
    omega

theorem looks_beginAt {s : Search} {id : NodeId} {later : List NodeId} (sound : Sound graph s)
    (stack : s.stack = []) (starts : s.starts = id :: later) :
    Looks graph s [] 1 (s.beginAt id later) := by
  have mem : id ∈ graph.ids := sound.starts id (starts ▸ List.mem_cons_self)
  unfold beginAt
  split
  · refine ⟨.refl _, ?_, Nat.le_refl _⟩
    simp only [stepsLeft, starts, List.length_cons]
    omega
  · next past =>
    have new : id ∉ s.visited := by simpa using past
    have edges := @pending_enter graph id s.visited [] mem new
    have nodes := (unvisited_perm mem new).length_eq
    refine ⟨stack ▸ edges, ?_, Nat.le_refl _⟩
    have lengths := edges.length_eq
    simp only [stepsLeft, starts, stack, List.length_cons, List.length_nil] at nodes ⊢
    omega

theorem looks_leave {s : Search} {top : Frame} {below : List Frame} (stack : s.stack = top :: below)
    (past : (graph.edgesFrom top.node)[top.looked]? = none) :
    Looks graph s [] 1 { s with stack := below, onStack := s.onStack.erase top.node } := by
  have done : (graph.edgesFrom top.node).drop top.looked = [] :=
    List.drop_eq_nil_iff.mpr (List.getElem?_eq_none_iff.mp past)
  have edges : pending graph s.visited s.stack = pending graph s.visited below := by
    rw [stack, pending, List.flatMap_cons, done]
    rfl
  refine ⟨.of_eq edges, ?_, Nat.le_refl _⟩
  simp only [stepsLeft, edges]
  simp only [stack, List.length_cons]
  omega

theorem looks_advance {s : Search} {top : Frame} {below : List Frame} {edge : Edge}
    (stack : s.stack = top :: below)
    (here : (graph.edgesFrom top.node)[top.looked]? = some edge) :
    Looks graph s [edge] 1 (s.advance top below) := by
  have edges := @pending_look graph s.visited top below
  rw [here, ← stack] at edges
  refine ⟨edges, ?_, Nat.le_add_right _ _⟩
  have lengths := edges.length_eq
  simp only [stepsLeft, advance, stack, List.length_cons, Option.toList_some, List.length_append,
    List.length_nil] at lengths ⊢
  omega

theorem looks_follow {s : Search} {edges : List Edge} (before : Search)
    (looks : Looks graph before edges 1 s) (one : edges.length = 1)
    (cycles : s.cycles = before.cycles) (mem : target ∈ graph.ids) :
    Looks graph before edges 1 (s.follow target) := by
  rcases follow_cases s target with ⟨-, cycle, next⟩ | ⟨-, -, next⟩ | ⟨-, new, next⟩
  · rw [next]
    refine ⟨looks.pending, looks.steps, ?_⟩
    simp only [cycles, List.length_append, List.length_cons, List.length_nil, one]
    omega
  · rwa [next]
  · have entered := @pending_enter graph target s.visited s.stack mem new
    have nodes := (unvisited_perm mem new).length_eq
    rw [next]
    refine ⟨looks.pending.trans (entered.append_left _), ?_, looks.cycles⟩
    have lengths := entered.length_eq
    have steps := looks.steps
    simp only [stepsLeft, List.length_cons] at steps nodes ⊢
    omega

theorem Sound.looks_step {s next : Search} (sound : Sound graph s)
    (taken : s.step graph = some next) :
    Looks graph s (s.edge? graph).toList 1 next := by
  rcases step_cases taken with ⟨id, later, stack, starts, rfl⟩ | ⟨top, below, stack, past, rfl⟩ |
    ⟨top, below, edge, stack, here, rfl⟩
  · have none : s.edge? graph = none := by simp [edge?, stack]
    exact none ▸ looks_beginAt sound stack starts
  · have none : s.edge? graph = none := by simp [edge?, stack, past]
    exact none ▸ looks_leave stack past
  · have some : s.edge? graph = some edge := by simp [edge?, stack, here]
    exact some ▸ looks_follow s (looks_advance stack here) rfl rfl (hasEdge_of_getElem? here).target_mem

theorem RunsTo.sound {s last : Search} {states : List Search} (runs : RunsTo graph s states last)
    (sound : Sound graph s) :
    Sound graph last ∧ (∀ t ∈ states, Sound graph t) ∧
      Looks graph s (states.filterMap (edge? graph)) states.length last := by
  induction runs with
  | refl s => exact ⟨sound, by simp, .refl s⟩
  | @cons s next last states taken _ ih =>
    obtain ⟨ends, all, looks⟩ := ih (sound.step taken)
    refine ⟨ends, List.forall_mem_cons.mpr ⟨sound, all⟩, ?_⟩
    have edges : (s :: states).filterMap (edge? graph) =
        (s.edge? graph).toList ++ states.filterMap (edge? graph) := by
      cases here : s.edge? graph <;> simp [here]
    rw [edges, List.length_cons, Nat.add_comm]
    exact (sound.looks_step taken).trans looks

/-- At the end all nodes have been visited and nothing is left to do. -/
theorem Sound.ended {s : Search} (sound : Sound graph s) (ends : s.step graph = none) :
    pending graph s.visited s.stack = [] ∧ stepsLeft graph s = 0 := by
  have stack : s.stack = [] := by
    cases stack : s.stack with
    | nil => rfl
    | cons top below =>
      cases here : (graph.edgesFrom top.node)[top.looked]? <;> simp [Search.step, stack, here] at ends
  have starts : s.starts = [] := by
    cases starts : s.starts with
    | nil => rfl
    | cons id later => simp [Search.step, stack, starts] at ends
  have all : unvisited graph s.visited = [] := by
    refine List.filter_eq_nil_iff.mpr fun id mem => ?_
    have visited := (sound.begun id mem).resolve_left (by simp [starts])
    simpa using visited
  have none : pending graph s.visited s.stack = [] := by simp [pending, all, stack]
  refine ⟨none, ?_⟩
  rw [stepsLeft, none, all, starts, stack]
  rfl

theorem pending_initial (graph : DependencyGraph) :
    (pending graph [] []).Perm graph.edges ∧
      stepsLeft graph (initial graph) = 2 * graph.nodes.length + graph.edges.length := by
  have all : unvisited graph [] = graph.ids := List.filter_eq_self.mpr (by simp)
  have reversed : (graph.ids.flatMap graph.edgesFrom).Perm
      (graph.ids.flatMap fun id => graph.edges.filter (·.source == id)) :=
    List.Perm.flatMap_left _ fun id _ => List.reverse_perm _
  have perm : (pending graph [] []).Perm graph.edges := by
    rw [pending, all, List.flatMap_nil, List.append_nil]
    exact reversed.trans (flatMap_filter_key_perm graph.ids_nodup fun edge mem =>
      (graph.ends_mem edge mem).1)
  refine ⟨perm, ?_⟩
  have ids : graph.ids.length = graph.nodes.length := List.length_map _
  simp only [stepsLeft, initial, all, perm.length_eq, ids, List.length_nil]
  omega

/-- The loop ends, after two steps for each node and one for each edge, with the cycles that the
walk finds. It looks at every edge once, so there are no more cycles than edges. At each step its
stack is a simple path, the set of nodes on it is right, and a node of the set is found there. Each
cycle goes along edges, ends where it begins and comes to no other node twice. -/
theorem search_looks_once (graph : DependencyGraph) :
    ∃ states last, RunsTo graph (initial graph) states last ∧ last.step graph = none ∧
      last.cycles = graph.cycles ∧
      states.length = 2 * graph.nodes.length + graph.edges.length ∧
      (∀ s ∈ states, graph.IsPath s.path ∧ s.onStack = s.path ∧
        ∀ id ∈ s.onStack, (s.position? id).isSome = true) ∧
      (states.filterMap (edge? graph)).Perm graph.edges ∧
      graph.cycles.length ≤ graph.edges.length ∧
      ∀ cycle ∈ graph.cycles, 2 ≤ cycle.length ∧ cycle.head? = cycle.getLast? ∧
        cycle.tail.Nodup ∧ cycle.dropLast.Nodup ∧ cycle.IsChain graph.HasEdge := by
  obtain ⟨states, last, runs, ends, cycles⟩ := exists_runsTo_cycles graph
  obtain ⟨sound, all, looks⟩ := runs.sound (sound_initial graph)
  obtain ⟨none, zero⟩ := sound.ended ends
  obtain ⟨edges, steps⟩ := pending_initial graph
  have looked : (states.filterMap (edge? graph)).Perm graph.edges := by
    have spent := looks.pending
    rw [none, List.append_nil] at spent
    exact spent.symm.trans edges
  have count := looks.cycles
  rw [looked.length_eq, cycles] at count
  refine ⟨states, last, runs, ends, cycles, ?_, fun s mem => ?_, looked, ?_, fun cycle mem => ?_⟩
  · rw [← steps, looks.steps, zero, Nat.add_zero]
  · exact ⟨(all s mem).isPath, (all s mem).onStack, fun id on => (all s mem).position?_isSome on⟩
  · simpa [initial] using count
  · have circuit := (exists_leftInOrder graph).2 cycle mem
    obtain ⟨length, ends⟩ := circuit.head?_eq_getLast?
    exact ⟨length, ends, circuit.once, circuit.dropLast_nodup, circuit.edges⟩

end Search

end DependencyGraph

end ChangeImpact
