import ChangeImpact.Coherence
import ChangeImpact.Proofs.Text.Digits
import Mathlib.Data.List.Induction
import Mathlib.Data.List.Perm.Subperm

/-!
# Exact coherence reports

A report has one issue for each cycle, for each export that nothing imports, for each file without
edges and for each node with too many of them, and no other issue. The issues of a kind are numbered
from one, and the score depends on how many issues of each severity there are and on nothing else.
-/

namespace ChangeImpact

/-! ## Numbered issues -/

namespace Finding

variable {findings : List Finding}

def numbered (findings : List Finding) : List CoherenceIssue :=
  findings.zipIdx.map fun (finding, index) => finding.toIssue (index + 1)

theorem toIssues_concat (findings : List Finding) (finding : Finding) :
    toIssues (findings ++ [finding]) =
      toIssues findings ++ [finding.toIssue (findings.countP (·.kind == finding.kind) + 1)] := by
  have earlier : findings.zipIdx.map (fun (other, index) => other.toIssue
        (((findings ++ [finding]).take index).countP (·.kind == other.kind) + 1)) =
      toIssues findings := by
    refine List.map_congr_left ?_
    rintro ⟨other, index⟩ mem
    have inside : index < findings.length := by
      simpa using List.snd_lt_of_mem_zipIdx mem
    simp [List.take_append_of_le_length (Nat.le_of_lt inside)]
  rw [toIssues, List.zipIdx_append, List.map_append, earlier]
  simp

theorem numbered_concat (findings : List Finding) (finding : Finding) :
    numbered (findings ++ [finding]) =
      numbered findings ++ [finding.toIssue (findings.length + 1)] := by
  simp [numbered, List.zipIdx_append]

/-- Findings of one kind behind others of other kinds are numbered on their own. -/
theorem toIssues_append_of_kind {kind : IssueKind} {front : List Finding}
    (apart : ∀ finding ∈ front, finding.kind ≠ kind)
    (same : ∀ finding ∈ findings, finding.kind = kind) :
    toIssues (front ++ findings) = toIssues front ++ numbered findings := by
  induction findings using List.reverseRecOn with
  | nil => simp [numbered]
  | append_singleton findings finding ih =>
    have last : finding.kind = kind := same finding (by simp)
    have earlier : ∀ other ∈ findings, other.kind = kind := fun other mem => same other (by simp [mem])
    have none : front.countP (·.kind == finding.kind) = 0 :=
      List.countP_eq_zero.mpr fun other mem => by simpa [last] using apart other mem
    have all : findings.countP (·.kind == finding.kind) = findings.length :=
      List.countP_eq_length.mpr fun other mem => by simpa [last] using earlier other mem
    rw [← List.append_assoc, toIssues_concat, ih earlier, numbered_concat, List.countP_append, none,
      all]
    simp

/-! ## Identifiers -/

theorem toString_injective {first second : Nat} (same : toString first = toString second) :
    first = second := by
  have digits : Nat.toDigits 10 first = Nat.toDigits 10 second := by
    simpa [toString, Nat.repr] using congrArg String.toList same
  have read := congrArg (Nat.ofDigitChars 10 · 0) digits
  simpa [Nat.ofDigitChars_toDigits] using read

/-- The identifier of an issue tells its kind and its number. -/
theorem id_toIssue_injective {finding other : Finding} {number count : Nat}
    (same : (finding.toIssue number).id = (other.toIssue count).id) :
    finding.kind = other.kind ∧ number = count := by
  have labels : finding.kind = other.kind := by
    have first : finding.kind.label.toList.head? = other.kind.label.toList.head? := by
      have heads := congrArg (·.toList.head?) same
      cases kind : finding.kind <;> cases kind' : other.kind <;>
        simp [toIssue, kind, kind', IssueKind.label] at heads ⊢
    cases kind : finding.kind <;> cases kind' : other.kind <;>
      simp [kind, kind', IssueKind.label] at first ⊢
  refine ⟨labels, toString_injective ?_⟩
  simpa [toIssue, labels] using same

theorem exists_of_mem_toIssues {issue : CoherenceIssue} (mem : issue ∈ toIssues findings) :
    ∃ finding ∈ findings, ∃ number,
      number ≤ findings.countP (·.kind == finding.kind) ∧ issue = finding.toIssue number := by
  obtain ⟨⟨finding, index⟩, numbered, rfl⟩ := List.mem_map.mp mem
  have place := List.mem_zipIdx_iff_getElem?.mp numbered
  have upTo : (findings.take (index + 1)).countP (·.kind == finding.kind) =
      (findings.take index).countP (·.kind == finding.kind) + 1 := by
    simp [List.take_add_one, place, List.countP_append]
  refine ⟨finding, List.mem_of_getElem? place, _, ?_, rfl⟩
  exact upTo ▸ (List.take_sublist (index + 1) findings).countP_le

theorem nodup_id_toIssues (findings : List Finding) :
    ((toIssues findings).map (·.id)).Nodup := by
  induction findings using List.reverseRecOn with
  | nil => exact List.nodup_nil
  | append_singleton findings finding ih =>
    rw [toIssues_concat, List.map_append, List.nodup_append]
    refine ⟨ih, List.pairwise_singleton _ _, ?_⟩
    intro id earlier last mem same
    obtain ⟨issue, listed, rfl⟩ := List.mem_map.mp earlier
    obtain ⟨other, -, number, fewer, rfl⟩ := exists_of_mem_toIssues listed
    obtain rfl : last = _ := List.mem_singleton.mp mem
    obtain ⟨kinds, numbers⟩ := id_toIssue_injective same
    rw [kinds] at fewer
    omega

end Finding

namespace CoherenceReport

/-! ## The score -/

section

variable {severities others : List Severity}

def penalties (severities : List Severity) : Nat :=
  (severities.map Severity.penalty).foldr (· + ·) 0

theorem penalties_append (severities others : List Severity) :
    penalties (severities ++ others) = penalties severities + penalties others := by
  induction severities with
  | nil => simp [penalties]
  | cons severity rest ih =>
    simp only [penalties, List.cons_append, List.map_cons, List.foldr_cons] at ih ⊢
    omega

theorem penalties_replicate (count : Nat) (severity : Severity) :
    penalties (List.replicate count severity) = severity.penalty * count := by
  induction count with
  | zero => rfl
  | succ count ih =>
    rw [List.replicate_succ', penalties_append, ih]
    simp [penalties, Nat.mul_succ]

theorem penalties_eq_of_perm (perm : severities.Perm others) :
    penalties severities = penalties others :=
  (perm.map Severity.penalty).foldr_eq' (fun a _ b _ c => by omega) 0

theorem penalties_le_of_subperm (among : severities.Subperm others) :
    penalties severities ≤ penalties others := by
  obtain ⟨fewer, perm, sublist⟩ := among
  rw [← penalties_eq_of_perm perm]
  clear perm
  induction sublist with
  | slnil => exact Nat.le_refl _
  | cons severity _ ih =>
    exact Nat.le_trans ih (Nat.le_add_left _ _)
  | cons_cons severity _ ih =>
    exact Nat.add_le_add_left ih _

/-- Adding up penalties in numbers that stay at their greatest value once they reach it. -/
def cappedPenalties (greatest : Nat) (severities : List Severity) : Nat :=
  severities.foldl (fun sum severity => min (sum + severity.penalty) greatest) 0

theorem cappedPenalties_eq (greatest : Nat) (severities : List Severity) :
    cappedPenalties greatest severities = min (penalties severities) greatest := by
  induction severities using List.reverseRecOn with
  | nil => simp [cappedPenalties, penalties]
  | append_singleton severities severity ih =>
    have last : penalties [severity] = severity.penalty := rfl
    rw [cappedPenalties, List.foldl_append] at *
    simp only [List.foldl_cons, List.foldl_nil] at ih ⊢
    rw [ih, penalties_append, last]
    omega

end

/-! ## What a report has to say -/

section

variable (graph : DependencyGraph)

/-- An export other than the default one, of a name that no node imports. -/
def IsUnused (ref : ExportRef) : Prop :=
  ref.kind ≠ .default ∧ ∀ node ∈ graph.nodes, ∀ taken ∈ node.imports, taken.name ≠ ref.name

instance (ref : ExportRef) : Decidable (IsUnused graph ref) :=
  inferInstanceAs (Decidable (_ ∧ _))

/-- A node, other than an endpoint, at which no edge begins or ends. -/
def IsOrphan (node : CodeNode) : Prop :=
  node.kind ≠ .api ∧ ∀ edge ∈ graph.edges, edge.source ≠ node.id ∧ edge.target ≠ node.id

instance (node : CodeNode) : Decidable (IsOrphan graph node) :=
  inferInstanceAs (Decidable (_ ∧ _))

def edgeEnds (id : NodeId) : Nat :=
  (graph.edges.flatMap fun edge => [edge.source, edge.target]).count id

end

variable {graph : DependencyGraph}

theorem isImported_eq_false_iff {name : String} : isImported graph name = false ↔
    ∀ node ∈ graph.nodes, ∀ taken ∈ node.imports, taken.name ≠ name := by
  simp [isImported]

theorem degree_eq_edgeEnds (id : NodeId) : graph.degree id = edgeEnds graph id := by
  unfold DependencyGraph.degree DependencyGraph.edgesTo DependencyGraph.edgesFrom edgeEnds
  induction graph.edges with
  | nil => rfl
  | cons edge rest ih =>
    simp only [List.length_reverse, List.filter_cons, List.flatMap_cons, List.count_append,
      List.count_cons, List.count_nil] at ih ⊢
    rw [← ih]
    split <;> split <;> simp <;> omega

theorem degree_eq_zero_iff (id : NodeId) :
    graph.degree id = 0 ↔ ∀ edge ∈ graph.edges, edge.source ≠ id ∧ edge.target ≠ id := by
  rw [degree_eq_edgeEnds, edgeEnds, List.count_eq_zero]
  simp [not_or, eq_comm]

def unusedIn (graph : DependencyGraph) : List Finding :=
  graph.nodes.flatMap fun node =>
    (node.exports.filter fun ref => decide (IsUnused graph ref)).map fun ref =>
      .unusedExport node.id node.path ref.name

def orphansIn (graph : DependencyGraph) : List Finding :=
  (graph.nodes.filter fun node => decide (IsOrphan graph node)).map fun node =>
    .orphan node.id node.path

def godObjectsIn (graph : DependencyGraph) (threshold : Nat) : List Finding :=
  (graph.nodes.filter fun node => decide (threshold < edgeEnds graph node.id)).map fun node =>
    .godObject node.id node.path (edgeEnds graph node.id) threshold

theorem unusedExports_eq (graph : DependencyGraph) :
    graph.nodes.flatMap (unusedExports graph) = unusedIn graph := by
  have sameTest : ∀ ref : ExportRef, (ref.kind != .default && !isImported graph ref.name) =
      decide (IsUnused graph ref) := by
    intro ref
    rw [Bool.eq_iff_iff, decide_eq_true_eq, Bool.and_eq_true, bne_iff_ne, Bool.not_eq_true',
      isImported_eq_false_iff]
    rfl
  unfold unusedIn unusedExports
  simp only [sameTest]

theorem orphans_eq (graph : DependencyGraph) : orphans graph = orphansIn graph := by
  have sameTest : ∀ node : CodeNode, (node.kind != .api && graph.degree node.id == 0) =
      decide (IsOrphan graph node) := by
    intro node
    rw [Bool.eq_iff_iff, decide_eq_true_eq, Bool.and_eq_true, bne_iff_ne, beq_iff_eq,
      degree_eq_zero_iff]
    rfl
  unfold orphansIn orphans
  simp only [sameTest]

theorem godObjects_eq (graph : DependencyGraph) (threshold : Nat) :
    godObjects graph threshold = godObjectsIn graph threshold := by
  unfold godObjects godObjectsIn
  simp only [degree_eq_edgeEnds]

theorem findings_eq (graph : DependencyGraph) (threshold : Nat) :
    findings graph threshold = graph.cycles.map .cycle ++ unusedIn graph ++ orphansIn graph ++
      godObjectsIn graph threshold := by
  rw [findings, unusedExports_eq, orphans_eq, godObjects_eq]

structure Uniform (findings : List Finding) (kind : IssueKind) (severity : Severity) : Prop where
  kind_eq : ∀ finding ∈ findings, finding.kind = kind
  severity_eq : ∀ finding ∈ findings, finding.severity = severity

theorem uniform_cycles (graph : DependencyGraph) :
    Uniform (graph.cycles.map .cycle) .circularDependency .high := by
  constructor <;> simp [Finding.kind, Finding.severity]

theorem uniform_unusedIn (graph : DependencyGraph) :
    Uniform (unusedIn graph) .unusedExport .low := by
  constructor <;> intro finding mem <;> obtain ⟨node, -, mem⟩ := List.mem_flatMap.mp mem <;>
    obtain ⟨ref, -, rfl⟩ := List.mem_map.mp mem <;> rfl

theorem uniform_orphansIn (graph : DependencyGraph) :
    Uniform (orphansIn graph) .orphanedFile .medium := by
  constructor <;> intro finding mem <;> obtain ⟨node, -, rfl⟩ := List.mem_map.mp mem <;> rfl

theorem uniform_godObjectsIn (graph : DependencyGraph) (threshold : Nat) :
    Uniform (godObjectsIn graph threshold) .godObject .medium := by
  constructor <;> intro finding mem <;> obtain ⟨node, -, rfl⟩ := List.mem_map.mp mem <;> rfl

variable {found : List Finding} {kind : IssueKind} {severity : Severity}

theorem Uniform.map_severity (uniform : Uniform found kind severity) :
    (Finding.numbered found).map (fun issue => (issue.kind, issue.severity)) =
      List.replicate found.length (kind, severity) := by
  refine List.eq_replicate_iff.mpr ⟨by simp [Finding.numbered], ?_⟩
  intro pair mem
  simp only [Finding.numbered, List.map_map, List.mem_map] at mem
  obtain ⟨⟨finding, index⟩, listed, rfl⟩ := mem
  have among : finding ∈ found := List.fst_mem_of_mem_zipIdx listed
  simp [Finding.toIssue, uniform.kind_eq finding among, uniform.severity_eq finding among]

theorem Uniform.map_id (uniform : Uniform found kind severity) :
    (Finding.numbered found).map (·.id) =
      (List.range found.length).map fun index => kind.label ++ "-" ++ toString (index + 1) := by
  have places : found.zipIdx.map Prod.snd = List.range found.length := by
    rw [List.zipIdx_map_snd, List.range_eq_range']
  rw [← places, Finding.numbered, List.map_map, List.map_map]
  refine List.map_congr_left ?_
  rintro ⟨finding, index⟩ listed
  simp [Finding.toIssue, uniform.kind_eq finding (List.fst_mem_of_mem_zipIdx listed)]

/-- A report that has an issue for every finding and nothing else: the cycles, then the exports that
nothing imports, the orphans and the god objects. -/
structure IsExact (report : CoherenceReport) (graph : DependencyGraph) (threshold : Nat) :
    Prop where
  issues : report.issues = Finding.numbered (graph.cycles.map .cycle) ++
    Finding.numbered (unusedIn graph) ++ Finding.numbered (orphansIn graph) ++
      Finding.numbered (godObjectsIn graph threshold)
  severities : report.issues.map (fun issue => (issue.kind, issue.severity)) =
    List.replicate graph.cycles.length (.circularDependency, .high) ++
      List.replicate (unusedIn graph).length (.unusedExport, .low) ++
      List.replicate (orphansIn graph).length (.orphanedFile, .medium) ++
      List.replicate (godObjectsIn graph threshold).length (.godObject, .medium)
  ids : report.issues.map (·.id) =
    (List.range graph.cycles.length).map (fun index => "cycle-" ++ toString (index + 1)) ++
      (List.range (unusedIn graph).length).map
        (fun index => "unused-export-" ++ toString (index + 1)) ++
      (List.range (orphansIn graph).length).map (fun index => "orphan-" ++ toString (index + 1)) ++
      (List.range (godObjectsIn graph threshold).length).map
        (fun index => "god-object-" ++ toString (index + 1))
  distinct : (report.issues.map (·.id)).Nodup
  score : (report.score : Int) = max 0 (100 - (10 * graph.cycles.length +
    2 * (unusedIn graph).length +
      5 * ((orphansIn graph).length + (godObjectsIn graph threshold).length)))

theorem issues_ofGraph (graph : DependencyGraph) (threshold : Nat) :
    (ofGraph graph threshold).issues = Finding.numbered (graph.cycles.map .cycle) ++
      Finding.numbered (unusedIn graph) ++ Finding.numbered (orphansIn graph) ++
        Finding.numbered (godObjectsIn graph threshold) := by
  have cycles := (uniform_cycles graph).kind_eq
  have unused := (uniform_unusedIn graph).kind_eq
  have orphans := (uniform_orphansIn graph).kind_eq
  have godObjects := (uniform_godObjectsIn graph threshold).kind_eq
  have first : Finding.toIssues (graph.cycles.map .cycle) =
      Finding.numbered (graph.cycles.map .cycle) :=
    @Finding.toIssues_append_of_kind (graph.cycles.map .cycle) _ [] (by simp) cycles
  show Finding.toIssues (findings graph threshold) = _
  rw [findings_eq, Finding.toIssues_append_of_kind ?_ godObjects,
    Finding.toIssues_append_of_kind ?_ orphans, Finding.toIssues_append_of_kind ?_ unused, first]
  · intro finding mem
    simp [cycles finding mem]
  · intro finding mem
    rcases List.mem_append.mp mem with mem | mem
    · simp [cycles finding mem]
    · simp [unused finding mem]
  · intro finding mem
    rcases List.mem_append.mp mem with mem | mem
    · rcases List.mem_append.mp mem with mem | mem
      · simp [cycles finding mem]
      · simp [unused finding mem]
    · simp [orphans finding mem]

theorem isExact_ofGraph (graph : DependencyGraph) (threshold : Nat) :
    (ofGraph graph threshold).IsExact graph threshold := by
  have issues := issues_ofGraph graph threshold
  have severities : (ofGraph graph threshold).issues.map
      (fun issue => (issue.kind, issue.severity)) =
        List.replicate graph.cycles.length (.circularDependency, .high) ++
          List.replicate (unusedIn graph).length (.unusedExport, .low) ++
          List.replicate (orphansIn graph).length (.orphanedFile, .medium) ++
          List.replicate (godObjectsIn graph threshold).length (.godObject, .medium) := by
    rw [issues, List.map_append, List.map_append, List.map_append,
      (uniform_cycles graph).map_severity, (uniform_unusedIn graph).map_severity,
      (uniform_orphansIn graph).map_severity, (uniform_godObjectsIn graph threshold).map_severity,
      List.length_map]
  refine ⟨issues, severities, ?_, Finding.nodup_id_toIssues _, ?_⟩
  · rw [issues, List.map_append, List.map_append, List.map_append, (uniform_cycles graph).map_id,
      (uniform_unusedIn graph).map_id, (uniform_orphansIn graph).map_id,
      (uniform_godObjectsIn graph threshold).map_id, List.length_map]
    rfl
  · have severity_eq := congrArg (List.map Prod.snd) severities
    simp only [List.map_map, List.map_append, List.map_replicate] at severity_eq
    have score : (ofGraph graph threshold).score =
        100 - penalties ((ofGraph graph threshold).issues.map (·.severity)) := rfl
    rw [score, show (ofGraph graph threshold).issues.map (·.severity) = _ from severity_eq,
      penalties_append, penalties_append, penalties_append, penalties_replicate,
      penalties_replicate, penalties_replicate, penalties_replicate]
    simp only [Severity.penalty]
    omega

/-- The report on a graph is exact. The score of any issues lies between 0 and 100, comes out the
same if penalties are added up in 32 bits without wrapping, does not rise when issues are added, and
does not depend on their order. -/
theorem ofGraph_exact (graph : DependencyGraph) (threshold : Nat) :
    (ofGraph graph threshold).IsExact graph threshold ∧
      ∀ severities : List Severity,
        (scoreOf severities : Int) = max 0 (100 - penalties severities) ∧
          scoreOf severities ≤ 100 ∧
          scoreOf severities = 100 - cappedPenalties 0xFFFFFFFF severities ∧
          ∀ others, (severities.Subperm others → scoreOf others ≤ scoreOf severities) ∧
            (severities.Perm others → scoreOf others = scoreOf severities) := by
  refine ⟨isExact_ofGraph graph threshold, fun severities => ?_⟩
  have score : ∀ severities, scoreOf severities = 100 - penalties severities := fun _ => rfl
  refine ⟨by rw [score]; omega, by rw [score]; omega, ?_,
    fun others => ⟨fun among => ?_, fun perm => ?_⟩⟩
  · rw [score, cappedPenalties_eq]
    omega
  · have more := penalties_le_of_subperm among
    rw [score, score]
    omega
  · rw [score, score, penalties_eq_of_perm perm]

end CoherenceReport

end ChangeImpact
