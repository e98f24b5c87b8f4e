import ChangeImpact.Impact.Analysis
import ChangeImpact.Proofs.Graph.Dependents
import ChangeImpact.Proofs.Impact.Marks

/-!
# What a report says

A report lists the dependents of its target in which the rule of the change finds something, each
with what is found in it, and the further dependents of these. A dependent that cannot be read is
warned about, and is otherwise treated as an empty file.
-/

namespace ChangeImpact

namespace ImpactReport

section

variable {σ : Type} [SourceStore σ] (store : σ) (graph : DependencyGraph) (resolver : ImportResolver)
  (change : ChangeDescriptor) (target : CodeNode) (refusal? : Pattern → Option String)

def foundBy (rule : Rule) (dependent : CodeNode) : Findings :=
  match SourceStore.read store dependent.path with
  | .ok content => rule.scan dependent content graph resolver
  | .error _ => .ofMarks []

/-- What is found in a node: nothing if no rule is made of the request. -/
def foundIn (id : NodeId) : Findings :=
  match (Rule.ofChange change target refusal?).1, graph.node? id with
  | some rule, some dependent => foundBy store graph resolver rule dependent
  | _, _ => .ofMarks []

def readWarning? (node : CodeNode) : Option String :=
  match SourceStore.read store node.path with
  | .ok _ => none
  | .error cause => some ("could not read " ++ node.path ++ ": " ++ cause.message)

def IsOfNode (entry : ImpactedNode) : Prop :=
  ∃ node, graph.node? entry.nodeId = some node ∧
    entry.path = node.path ∧ entry.name = node.name ∧ entry.kind = node.kind

/-- An entry of a dependent in which something is found. Its lines are lines of the file: those of
what breaks there, and of the patches for it. -/
structure IsHit (entry : ImpactedNode) : Prop where
  dependent : graph.HasEdge entry.nodeId target.id
  node : IsOfNode graph entry
  lines_ne_nil : entry.lines ≠ []
  ascending : entry.lines.Pairwise (· < ·)
  inside : ∃ content, SourceStore.read store entry.path = .ok content ∧
    ∀ line ∈ entry.lines, 1 ≤ line ∧ line ≤ (Text.lines content).length
  marked : ∀ line ∈ entry.lines,
    (∃ broken ∈ (foundIn store graph resolver change target refusal? entry.nodeId).breaking,
      broken.line = line) ∨
    ∃ patch ∈ (foundIn store graph resolver change target refusal? entry.nodeId).fixes,
      patch.line = line
  breaking : ∀ broken ∈
      (foundIn store graph resolver change target refusal? entry.nodeId).breaking,
    broken.nodeId = entry.nodeId ∧ broken.path = entry.path ∧ broken.line ∈ entry.lines
  fixes : ∀ patch ∈ (foundIn store graph resolver change target refusal? entry.nodeId).fixes,
    patch.path = entry.path ∧ patch.line ∈ entry.lines

structure Describes (report : ImpactReport) : Prop where
  targetNode_eq : report.targetNode = target.id
  change_eq : report.change = change
  direct_ids : report.directImpact.map (·.nodeId) = (graph.dependentIds target.id).filter
    fun id => !(foundIn store graph resolver change target refusal? id).isEmpty
  direct_ascending : (report.directImpact.map (·.nodeId)).Pairwise (· < ·)
  direct : ∀ entry ∈ report.directImpact, IsHit store graph resolver change target refusal? entry
  breaking_eq : report.breakingChanges = report.directImpact.flatMap fun entry =>
    (foundIn store graph resolver change target refusal? entry.nodeId).breaking
  fixes_eq : report.suggestedFixes = report.directImpact.flatMap fun entry =>
    (foundIn store graph resolver change target refusal? entry.nodeId).fixes
  breaking_iff : ∀ entry ∈ report.directImpact, entry.breaking = true ↔
    ∃ broken ∈ report.breakingChanges, broken.nodeId = entry.nodeId
  breaking_line : ∀ entry ∈ report.directImpact, ∀ broken ∈ report.breakingChanges,
    broken.nodeId = entry.nodeId → broken.line ∈ entry.lines
  transitive_ascending : (report.transitiveImpact.map (·.nodeId)).Pairwise (· < ·)
  mem_transitive : ∀ id, id ∈ report.transitiveImpact.map (·.nodeId) ↔
    (∃ via ∈ report.directImpact, graph.HasEdge id via.nodeId) ∧ id ≠ target.id ∧
      id ∉ report.directImpact.map (·.nodeId)
  transitive : ∀ entry ∈ report.transitiveImpact,
    IsOfNode graph entry ∧ entry.breaking = false ∧ entry.lines = []
  riskLevel_eq : report.riskLevel =
    assessRisk change.changeType report.breakingChanges.length report.directImpact.length
  warnings_eq : report.warnings =
    (Rule.ofChange change target refusal?).2.map RuleWarning.message ++
    if (Rule.ofChange change target refusal?).1.isSome then
      (graph.dependents target.id).filterMap (readWarning? store)
    else []
  /-- But for the warnings, the report is as if the files that cannot be read were empty. -/
  unreadable_eq : ∀ {τ : Type} [SourceStore τ] (other : τ),
    (∀ dependent ∈ graph.dependents target.id, SourceStore.read other dependent.path =
      .ok ((SourceStore.read store dependent.path).toOption.getD "")) →
    ofTarget graph other resolver change target refusal? =
      { report with warnings := (Rule.ofChange change target refusal?).2.map RuleWarning.message }

/-! ## The hits of a change -/

def hits : List (CodeNode × Findings) :=
  ((graph.dependents target.id).filter fun dependent =>
    !(foundIn store graph resolver change target refusal? dependent.id).isEmpty).map
      fun dependent => (dependent, foundIn store graph resolver change target refusal? dependent.id)

def hitEntry (hit : CodeNode × Findings) : ImpactedNode :=
  impacted hit.1 hit.2.lines (!hit.2.breaking.isEmpty)
    (((Rule.ofChange change target refusal?).1.map Rule.reason).getD "")

end

section

variable {σ : Type} [SourceStore σ] {store : σ} {graph : DependencyGraph} {resolver : ImportResolver}
  {change : ChangeDescriptor} {target : CodeNode} {refusal? : Pattern → Option String}

theorem hit?_scanDependent_eq (rule : Rule) (dependent : CodeNode) :
    (scanDependent store graph resolver rule dependent).hit? =
      if !(foundBy store graph resolver rule dependent).isEmpty then
        some (dependent, foundBy store graph resolver rule dependent)
      else none := by
  unfold scanDependent foundBy
  cases SourceStore.read store dependent.path with
  | ok content =>
    show (if (rule.scan dependent content graph resolver).isEmpty then _ else _) = _
    cases none : (rule.scan dependent content graph resolver).isEmpty <;> rfl
  | error cause => rfl

theorem warning?_scanDependent (rule : Rule) (dependent : CodeNode) :
    (scanDependent store graph resolver rule dependent).warning? =
      readWarning? store dependent := by
  unfold scanDependent readWarning?
  cases SourceStore.read store dependent.path with
  | ok content => rfl
  | error cause => rfl

theorem foundIn_dependent {rule : Rule}
    (made : (Rule.ofChange change target refusal?).1 = some rule) {dependent : CodeNode}
    {id : NodeId} (mem : dependent ∈ graph.dependents id) :
    foundIn store graph resolver change target refusal? dependent.id =
      foundBy store graph resolver rule dependent := by
  rw [foundIn, made, graph.node?_of_mem_dependents mem]

theorem foundIn_of_none (none : (Rule.ofChange change target refusal?).1 = none) (id : NodeId) :
    foundIn store graph resolver change target refusal? id = .ofMarks [] := by
  rw [foundIn, none]

theorem hits_scans :
    ((Rule.ofChange change target refusal?).1.toList.flatMap fun rule =>
      (graph.dependents target.id).map (scanDependent store graph resolver rule)).filterMap
        Scan.hit? = hits store graph resolver change target refusal? := by
  cases made : (Rule.ofChange change target refusal?).1 with
  | none =>
    have nothing : ∀ id,
        (foundIn store graph resolver change target refusal? id).isEmpty = true := by
      intro id
      rw [foundIn_of_none made]
      rfl
    simp [hits, nothing]
  | some rule =>
    rw [hits, ← List.filterMap_eq_map, List.filterMap_filter, Option.toList_some,
      List.flatMap_singleton, List.filterMap_map]
    refine List.filterMap_congr fun dependent mem => ?_
    rw [Function.comp_apply, Function.comp_apply, hit?_scanDependent_eq, foundIn_dependent made mem]

theorem warnings_scans :
    ((Rule.ofChange change target refusal?).1.toList.flatMap fun rule =>
      (graph.dependents target.id).map (scanDependent store graph resolver rule)).filterMap
        Scan.warning? =
      if (Rule.ofChange change target refusal?).1.isSome then
        (graph.dependents target.id).filterMap (readWarning? store)
      else [] := by
  cases made : (Rule.ofChange change target refusal?).1 with
  | none => rfl
  | some rule =>
    rw [Option.toList_some, List.flatMap_singleton, List.filterMap_map, Option.isSome_some, if_pos rfl]
    exact List.filterMap_congr fun dependent _ => warning?_scanDependent rule dependent

/-- A report is made of the hits and of the warnings. -/
theorem ofTarget_eq : ofTarget graph store resolver change target refusal? =
    let hits := hits store graph resolver change target refusal?
    let direct := hits.map (hitEntry change target refusal?)
    let breaking := hits.flatMap (·.2.breaking)
    { targetNode := target.id
      change
      directImpact := direct
      transitiveImpact := ImpactReport.transitive graph target.id direct
      breakingChanges := breaking
      suggestedFixes := hits.flatMap (·.2.fixes)
      riskLevel := assessRisk change.changeType breaking.length direct.length
      warnings := (Rule.ofChange change target refusal?).2.map RuleWarning.message ++
        if (Rule.ofChange change target refusal?).1.isSome then
          (graph.dependents target.id).filterMap (readWarning? store)
        else [] } := by
  unfold ofTarget
  simp only [hits_scans, warnings_scans]
  rfl

/-- A hit is in a dependent that can be read, and its findings are in the text of it. -/
theorem of_mem_hits {hit : CodeNode × Findings}
    (mem : hit ∈ hits store graph resolver change target refusal?) :
    hit.1 ∈ graph.dependents target.id ∧
      hit.2 = foundIn store graph resolver change target refusal? hit.1.id ∧ hit.2.lines ≠ [] ∧
      ∃ content, SourceStore.read store hit.1.path = .ok content ∧ hit.2.AreIn hit.1 content := by
  obtain ⟨dependent, listed, rfl⟩ := List.mem_map.mp mem
  obtain ⟨listed, some⟩ := List.mem_filter.mp listed
  have lines : (foundIn store graph resolver change target refusal? dependent.id).lines ≠ [] := by
    simpa [Findings.isEmpty] using some
  refine ⟨listed, rfl, lines, ?_⟩
  cases made : (Rule.ofChange change target refusal?).1 with
  | none =>
    rw [foundIn_of_none made] at lines
    exact absurd rfl lines
  | some rule =>
    simp only [foundIn_dependent made listed] at lines ⊢
    unfold foundBy at lines ⊢
    cases readable : SourceStore.read store dependent.path with
    | error cause =>
      rw [readable] at lines
      exact absurd rfl lines
    | ok content => exact ⟨content, rfl, rule.areIn_scan dependent graph resolver content⟩

theorem isHit_hitEntry {hit : CodeNode × Findings}
    (mem : hit ∈ hits store graph resolver change target refusal?) :
    IsHit store graph resolver change target refusal? (hitEntry change target refusal? hit) := by
  obtain ⟨listed, found, lines, content, readable, areIn⟩ := of_mem_hits mem
  have own : foundIn store graph resolver change target refusal?
      (hitEntry change target refusal? hit).nodeId = hit.2 :=
    found.symm
  constructor
  · exact graph.hasEdge_of_mem_dependents listed
  · exact ⟨hit.1, graph.node?_of_mem_dependents listed, rfl, rfl, rfl⟩
  · exact lines
  · exact areIn.ascending
  · exact ⟨content, readable, areIn.inside⟩
  · rw [own]
    exact areIn.marked
  · rw [own]
    exact areIn.breaking
  · rw [own]
    exact areIn.fixes

theorem nodeIds_hits (store : σ) (graph : DependencyGraph) (resolver : ImportResolver)
    (change : ChangeDescriptor) (target : CodeNode) (refusal? : Pattern → Option String) :
    ((hits store graph resolver change target refusal?).map
      (hitEntry change target refusal?)).map (·.nodeId) =
      (graph.dependentIds target.id).filter
        fun id => !(foundIn store graph resolver change target refusal? id).isEmpty := by
  rw [← graph.map_id_dependents, List.filter_map, hits, List.map_map, List.map_map]
  rfl

theorem flatMap_hits (part : Findings → List α) :
    (hits store graph resolver change target refusal?).flatMap (part ·.2) =
      ((hits store graph resolver change target refusal?).map
        (hitEntry change target refusal?)).flatMap fun entry =>
          part (foundIn store graph resolver change target refusal? entry.nodeId) := by
  rw [List.flatMap_map]
  refine List.flatMap_congr fun hit mem => ?_
  rw [(of_mem_hits mem).2.1]
  rfl

theorem mem_breaking_of_nodeId {hit : CodeNode × Findings}
    (mem : hit ∈ hits store graph resolver change target refusal?) {broken : BreakingChange}
    (listed : broken ∈ (hits store graph resolver change target refusal?).flatMap (·.2.breaking))
    (same : broken.nodeId = hit.1.id) : broken ∈ hit.2.breaking := by
  obtain ⟨other, listed, found⟩ := List.mem_flatMap.mp listed
  obtain ⟨-, other_eq, -, content, -, areIn⟩ := of_mem_hits listed
  have node : other.1.id = hit.1.id := (areIn.breaking broken found).1.symm.trans same
  rw [(of_mem_hits mem).2.1, ← node, ← other_eq]
  exact found

theorem breaking_hitEntry_iff {hit : CodeNode × Findings}
    (mem : hit ∈ hits store graph resolver change target refusal?) :
    (hitEntry change target refusal? hit).breaking = true ↔
      ∃ broken ∈ (hits store graph resolver change target refusal?).flatMap (·.2.breaking),
        broken.nodeId = hit.1.id := by
  have nonempty : (hitEntry change target refusal? hit).breaking = true ↔ hit.2.breaking ≠ [] := by
    simp [hitEntry, impacted]
  rw [nonempty]
  constructor
  · intro some
    obtain ⟨broken, found⟩ := List.exists_mem_of_ne_nil _ some
    obtain ⟨-, -, -, content, -, areIn⟩ := of_mem_hits mem
    exact ⟨broken, List.mem_flatMap.mpr ⟨hit, mem, found⟩, (areIn.breaking broken found).1⟩
  · rintro ⟨broken, listed, same⟩
    exact List.ne_nil_of_mem (mem_breaking_of_nodeId mem listed same)

theorem hits_congr {τ : Type} [SourceStore τ] {other : τ}
    (same : ∀ dependent ∈ graph.dependents target.id,
      foundIn other graph resolver change target refusal? dependent.id =
        foundIn store graph resolver change target refusal? dependent.id) :
    hits other graph resolver change target refusal? =
      hits store graph resolver change target refusal? := by
  have kept := List.filter_congr (l := graph.dependents target.id) fun dependent mem =>
    congrArg (fun findings => !Findings.isEmpty findings) (same dependent mem)
  rw [hits, hits, kept]
  refine List.map_congr_left fun dependent mem => ?_
  rw [same dependent (List.mem_filter.mp mem).1]

/-- A file that cannot be read counts as an empty one. -/
theorem foundIn_of_unreadable_empty {τ : Type} [SourceStore τ] {other : τ} {dependent : CodeNode}
    (mem : dependent ∈ graph.dependents target.id)
    (empty : SourceStore.read other dependent.path =
      .ok ((SourceStore.read store dependent.path).toOption.getD "")) :
    foundIn other graph resolver change target refusal? dependent.id =
      foundIn store graph resolver change target refusal? dependent.id := by
  cases made : (Rule.ofChange change target refusal?).1 with
  | none => rw [foundIn_of_none made, foundIn_of_none made]
  | some rule =>
    rw [foundIn_dependent made mem, foundIn_dependent made mem, foundBy, foundBy, empty]
    cases SourceStore.read store dependent.path with
    | ok content => rfl
    | error cause => exact rule.scan_empty dependent graph resolver

end

/-! ## Further dependents -/

section

variable (graph : DependencyGraph) (target : NodeId) (direct : List ImpactedNode)

theorem map_nodeId_transitive : (ImpactReport.transitive graph target direct).map (·.nodeId) =
    Ascending.ofList ((direct.flatMap fun via => graph.dependentIds via.nodeId).filter
      fun id => id != target && !direct.any (·.nodeId == id)) := by
  refine map_key_filterMap fun id mem => ?_
  obtain ⟨reached, -⟩ := List.mem_filter.mp (Ascending.mem_ofList.mp mem)
  obtain ⟨via, listed, depends⟩ := List.mem_flatMap.mp reached
  obtain ⟨node, found, same⟩ := DependencyGraph.exists_node?_of_mem_ids
    (DependencyGraph.mem_dependentIds.mp depends).source_mem
  have some : (firstVia? graph direct id).isSome = true :=
    List.find?_isSome.mpr ⟨via, listed, by simpa using depends⟩
  obtain ⟨first, some⟩ := Option.isSome_iff_exists.mp some
  exact ⟨_, by rw [found, some]; rfl, same⟩

variable {graph target direct}

theorem mem_transitive_iff {id : NodeId} :
    id ∈ (ImpactReport.transitive graph target direct).map (·.nodeId) ↔
      (∃ via ∈ direct, graph.HasEdge id via.nodeId) ∧ id ≠ target ∧
        id ∉ direct.map (·.nodeId) := by
  rw [map_nodeId_transitive, Ascending.mem_ofList, List.mem_filter, List.mem_flatMap]
  simp [DependencyGraph.mem_dependentIds]

theorem of_mem_transitive {entry : ImpactedNode}
    (mem : entry ∈ ImpactReport.transitive graph target direct) :
    IsOfNode graph entry ∧ entry.breaking = false ∧ entry.lines = [] := by
  obtain ⟨id, -, made⟩ := List.mem_filterMap.mp mem
  simp only [Option.bind_eq_bind, Option.bind_eq_some_iff, Option.pure_def, Option.some.injEq] at made
  obtain ⟨node, found, via, -, rfl⟩ := made
  have same : node.id = id := by simpa using List.find?_some found
  exact ⟨⟨node, by rw [← found, ← same]; rfl, rfl, rfl, rfl⟩, rfl, rfl⟩

end

/-! ## The report -/

section

variable {σ : Type} [SourceStore σ]

theorem describes_ofTarget (store : σ) (graph : DependencyGraph) (resolver : ImportResolver)
    (change : ChangeDescriptor) (target : CodeNode) (refusal? : Pattern → Option String) :
    Describes store graph resolver change target refusal?
      (ofTarget graph store resolver change target refusal?) where
  targetNode_eq := rfl
  change_eq := rfl
  direct_ids := by
    rw [ofTarget_eq]
    exact nodeIds_hits ..
  direct_ascending := by
    have ascending := (graph.pairwise_dependentIds target.id).filter
      fun id => !(foundIn store graph resolver change target refusal? id).isEmpty
    rw [ofTarget_eq]
    exact nodeIds_hits store graph resolver change target refusal? ▸ ascending
  direct := by
    intro entry mem
    rw [ofTarget_eq] at mem
    obtain ⟨hit, listed, rfl⟩ := List.mem_map.mp mem
    exact isHit_hitEntry listed
  breaking_eq := by
    rw [ofTarget_eq]
    exact flatMap_hits (·.breaking)
  fixes_eq := by
    rw [ofTarget_eq]
    exact flatMap_hits (·.fixes)
  breaking_iff := by
    rw [ofTarget_eq]
    intro entry mem
    obtain ⟨hit, listed, rfl⟩ := List.mem_map.mp mem
    exact breaking_hitEntry_iff listed
  breaking_line := by
    rw [ofTarget_eq]
    intro entry mem broken found same
    obtain ⟨hit, listed, rfl⟩ := List.mem_map.mp mem
    obtain ⟨-, -, -, content, -, areIn⟩ := of_mem_hits listed
    exact (areIn.breaking broken (mem_breaking_of_nodeId listed found same)).2.2
  transitive_ascending := by
    rw [ofTarget_eq]
    exact map_nodeId_transitive graph target.id _ ▸ Ascending.pairwise_ofList _
  mem_transitive := by
    rw [ofTarget_eq]
    exact fun id => mem_transitive_iff
  transitive := by
    rw [ofTarget_eq]
    exact fun entry => of_mem_transitive
  riskLevel_eq := by
    rw [ofTarget_eq]
  warnings_eq := by
    rw [ofTarget_eq]
  unreadable_eq := by
    intro τ _ other empty
    have same := hits_congr fun dependent mem =>
      @foundIn_of_unreadable_empty σ _ store graph resolver change target refusal? τ _ other
        dependent mem (empty dependent mem)
    have warnings : (graph.dependents target.id).filterMap (readWarning? other) = [] := by
      refine List.filterMap_eq_nil_iff.mpr fun dependent mem => ?_
      rw [readWarning?, empty dependent mem]
    rw [ofTarget_eq, ofTarget_eq, same, warnings]
    simp

/-- Every report on a change to a known target is as described, and an unknown target is the only
error. -/
theorem ofChange_describes (store : σ) (graph : DependencyGraph) (resolver : ImportResolver)
    (change : ChangeDescriptor) (refusal? : Pattern → Option String) :
    (∀ error, ofChange graph store resolver change refusal? = .error error ↔
      change.nodeId ∉ graph.ids ∧ error = ⟨change.nodeId⟩) ∧
    ∀ target, graph.node? change.nodeId = some target →
      ∃ report, ofChange graph store resolver change refusal? = .ok report ∧
        Describes store graph resolver change target refusal? report := by
  constructor
  · intro error
    unfold ofChange
    cases known : graph.node? change.nodeId with
    | none =>
      have unknown : change.nodeId ∉ graph.ids := by
        intro mem
        obtain ⟨node, found, -⟩ := DependencyGraph.exists_node?_of_mem_ids mem
        simp [known] at found
      simp [unknown, eq_comm]
    | some target =>
      have same : target.id = change.nodeId := by simpa using List.find?_some known
      have mem : change.nodeId ∈ graph.ids :=
        same ▸ List.mem_map.mpr ⟨target, List.mem_of_find?_eq_some known, rfl⟩
      simp [mem]
  · intro target known
    refine ⟨ofTarget graph store resolver change target refusal?, ?_, describes_ofTarget ..⟩
    rw [ofChange, known]

/-- A deletion in a graph with a self edge, parallel edges and a circuit: one dependent imports over
two lines, one cannot be read, and a third one depends on both of these. -/
theorem ofChange_describes_delete :
    let node (path : String) : CodeNode := ⟨path, .file, path, path, 1, 1, [], [], .none⟩
    let edge (source target : NodeId) (kind : EdgeKind) : Edge :=
      .between source target kind (.ofNat 1)
    let graph : DependencyGraph :=
      { nodes := [node "t", node "c", node "b", node "a"]
        edges := [edge "b" "t" .imports, edge "a" "t" .usesType, edge "a" "t" .imports,
          edge "t" "t" .imports, edge "c" "a" .imports, edge "c" "b" .imports, edge "t" "c" .imports]
        ids_nodup := by decide
        ends_mem := by decide }
    let resolver : ImportResolver := ⟨"@/", ""⟩
    let text := "import\n x from './t';\n"
    let store : MemoryStore := { files := [("a", text), ("t", "")], unreadable := ["b"] }
    let other : MemoryStore := { files := [("a", text), ("t", ""), ("b", "")] }
    let change : ChangeDescriptor := { nodeId := "t", changeType := .delete }
    "u" ∉ graph.ids ∧ ofChange graph store resolver { change with nodeId := "u" } = .error ⟨"u"⟩ ∧
      graph.node? change.nodeId = some (node "t") ∧
      ∃ report, ofChange graph store resolver change = .ok report ∧
        Describes store graph resolver change (node "t") (fun _ => none) report ∧
        report.directImpact.map (fun entry => (entry.nodeId, entry.lines, entry.breaking)) =
          [("a", [1, 2], true)] ∧
        report.transitiveImpact.map (·.nodeId) = ["c"] ∧
        report.warnings = ["could not read b: read refused"] ∧
        ofTarget graph other resolver change (node "t") = { report with warnings := [] } := by
  intro node edge graph resolver text store other change
  have unknown : "u" ∉ graph.ids := by decide
  have known : graph.node? change.nodeId = some (node "t") := by decide
  obtain ⟨fails, -⟩ :=
    ofChange_describes store graph resolver { change with nodeId := "u" } fun _ => none
  obtain ⟨report, ok, describes⟩ :=
    (ofChange_describes store graph resolver change fun _ => none).2 (node "t") known
  have evaluated : (ofChange graph store resolver change).toOption.map (fun report =>
      (report.directImpact.map (fun entry => (entry.nodeId, entry.lines, entry.breaking)),
        report.transitiveImpact.map (·.nodeId), report.warnings)) =
      some ([("a", [1, 2], true)], ["c"], ["could not read b: read refused"]) := by
    decide
  rw [ok] at evaluated
  obtain ⟨direct, others⟩ := Prod.mk.inj (Option.some.inj evaluated)
  obtain ⟨transitive, warnings⟩ := Prod.mk.inj others
  have empty : ∀ dependent ∈ graph.dependents (node "t").id,
      SourceStore.read other dependent.path =
        .ok ((SourceStore.read store dependent.path).toOption.getD "") := by
    have dependents : graph.dependents (node "t").id = [node "a", node "b", node "t"] := by
      decide
    rw [dependents]
    simp only [List.forall_mem_cons]
    exact ⟨rfl, rfl, rfl, fun _ mem => absurd mem List.not_mem_nil⟩
  exact ⟨unknown, (fails _).mpr ⟨unknown, rfl⟩, known, report, ok, describes, direct, transitive,
    warnings, describes.unreadable_eq other empty⟩

end

end ImpactReport

end ChangeImpact
