import ChangeImpact.Proofs.Graph.Build
import ChangeImpact.Proofs.Graph.Dependents
import ChangeImpact.Source.Extraction

/-!
# Edges and import statements

The graph of some files records the names that their import statements bring in. A file depends on
another one if one of its statements stands for the other file and brings in something. A statement
with nothing between its braces leaves no trace in the graph.
-/

namespace ChangeImpact

namespace ImportStatement

variable {statement : ImportStatement}

/-- Whether the statement brings in a default name, a name for the whole module or an entry between
braces, or runs its module. -/
def bringsIn (statement : ImportStatement) : Bool :=
  statement.clause.default.isSome || statement.clause.wholeModule.isSome ||
    !statement.clause.named.isEmpty || statement.sideEffect

theorem refs_eq_nil_iff : statement.refs = [] ↔ statement.bringsIn = false := by
  simp [refs, bringsIn, and_assoc]

theorem source_of_mem_refs {ref : ImportRef} (mem : ref ∈ statement.refs) :
    ref.source = statement.specifier := by
  simp only [refs, List.mem_append, List.mem_map] at mem
  rcases mem with ((⟨_, -, rfl⟩ | ⟨_, -, rfl⟩) | ⟨_, -, rfl⟩) | mem
  · rfl
  · rfl
  · rfl
  · split at mem
    · obtain rfl := List.mem_singleton.mp mem
      rfl
    · simp at mem

theorem exists_mem_allRefs {text : List Char} {p : String → Prop} :
    (∃ ref ∈ allRefs text, p ref.source) ↔
      ∃ statement ∈ parseAll text, statement.bringsIn = true ∧ p statement.specifier := by
  constructor
  · rintro ⟨ref, mem, holds⟩
    obtain ⟨statement, listed, mem⟩ := List.mem_flatMap.mp mem
    refine ⟨statement, listed, ?_, source_of_mem_refs mem ▸ holds⟩
    by_contra nothing
    rw [refs_eq_nil_iff.mpr (by simpa using nothing)] at mem
    exact absurd mem List.not_mem_nil
  · rintro ⟨statement, listed, something, holds⟩
    have some : statement.refs ≠ [] := fun none => by simp [refs_eq_nil_iff.mp none] at something
    obtain ⟨ref, mem⟩ := List.exists_mem_of_ne_nil _ some
    exact ⟨ref, List.mem_flatMap.mpr ⟨statement, listed, mem⟩, source_of_mem_refs mem ▸ holds⟩

end ImportStatement

namespace DependencyGraph

open ImportStatement (targeting)

variable {graph : DependencyGraph} {resolver : ImportResolver} {source target : NodeId}
  {files : List (String × String)}

def nodesOfFiles (files : List (String × String)) : List CodeNode :=
  files.map fun file => (Extraction.ofText file.1 file.2).toNode file.1

theorem find?_nodesOfFiles (distinct : (files.map (·.1)).Nodup) {path content : String}
    (mem : (path, content) ∈ files) :
    (nodesOfFiles files).reverse.find? (·.id == path) =
      some ((Extraction.ofText path content).toNode path) := by
  have ids : (nodesOfFiles files).map (·.id) = files.map (·.1) := List.map_map
  have distinct : ((nodesOfFiles files).reverse.map (·.id)).Nodup := by
    rw [List.map_reverse, List.nodup_reverse, ids]
    exact distinct
  have listed : (Extraction.ofText path content).toNode path ∈ (nodesOfFiles files).reverse :=
    List.mem_reverse.mpr (List.mem_map.mpr ⟨(path, content), mem, rfl⟩)
  exact find?_key_of_mem distinct listed

theorem hasEdge_iff_of_edgesBetween
    (between : ∀ source target kind, graph.edgesBetween source target kind =
      if source = target then []
      else (edgeCarrying source target kind
        (graph.carriedFrom resolver source target kind).length).toList)
    {node : CodeNode} (found : graph.node? source = some node) (differ : source ≠ target) :
    graph.HasEdge source target ↔
      ∃ ref ∈ node.imports, resolver.resolve? graph ref.source node.path = some target := by
  have carried_eq : ∀ kind, graph.carriedFrom resolver source target kind =
      graph.carried resolver node target kind := by
    intro kind
    simp [carriedFrom, found]
  constructor
  · rintro ⟨edge, mem, rfl, rfl⟩
    have listed : edge ∈ graph.edgesBetween edge.source edge.target edge.kind :=
      List.mem_filter.mpr ⟨mem, by simp⟩
    rw [between, if_neg differ, carried_eq] at listed
    cases refs : graph.carried resolver node edge.target edge.kind with
    | nil => simp [refs, edgeCarrying] at listed
    | cons ref rest =>
      have first : ref ∈ graph.carried resolver node edge.target edge.kind :=
        refs ▸ List.mem_cons_self
      obtain ⟨imported, holds⟩ := List.mem_filter.mp first
      rw [Bool.and_eq_true, beq_iff_eq] at holds
      exact ⟨ref, imported, holds.1⟩
  · rintro ⟨ref, imported, resolved⟩
    have carries : ref ∈ graph.carried resolver node target ref.edgeKind :=
      List.mem_filter.mpr ⟨imported, by simp [resolved]⟩
    have listed : Edge.between source target ref.edgeKind
        (.ofNat (graph.carried resolver node target ref.edgeKind).length) ∈
          graph.edgesBetween source target ref.edgeKind := by
      rw [between, if_neg differ, carried_eq]
      cases refs : graph.carried resolver node target ref.edgeKind with
      | nil => rw [refs] at carries; exact absurd carries List.not_mem_nil
      | cons first rest => simp [edgeCarrying]
    exact ⟨_, (List.mem_filter.mp listed).1, rfl, rfl⟩

/-- The graph of some files can be built, and one file depends on another one exactly if one of its
statements that stand for the other file brings in something. That there is such a statement at all
says the same unless all of them bring in nothing. -/
theorem dependent_iff_bringsIn (distinct : (files.map (·.1)).Nodup) (resolver : ImportResolver) :
    ∃ graph, build (nodesOfFiles files) resolver = .ok graph ∧
      ∀ path content, (path, content) ∈ files → ∀ target, target ≠ path →
        let found := targeting graph resolver content.toList path target
        (path ∈ (graph.dependents target).map (·.id) ↔
          ∃ statement ∈ found, statement.bringsIn = true) ∧
        ((path ∈ (graph.dependents target).map (·.id) ↔ found ≠ []) ↔
          (found ≠ [] → ∃ statement ∈ found, statement.bringsIn = true)) := by
  obtain ⟨graph, ok, node?_eq, between⟩ := exists_build (nodesOfFiles files) resolver
  refine ⟨graph, ok, ?_⟩
  intro path content mem target differ found
  have node := (node?_eq path).trans (find?_nodesOfFiles distinct mem)
  have depends : path ∈ (graph.dependents target).map (·.id) ↔
      ∃ statement ∈ found, statement.bringsIn = true := by
    rw [map_id_dependents, mem_dependentIds,
      hasEdge_iff_of_edgesBetween between node differ.symm]
    have refs := @ImportStatement.exists_mem_allRefs content.toList fun specifier =>
      resolver.resolve? graph specifier path = some target
    refine Iff.trans refs ?_
    constructor
    · rintro ⟨statement, listed, something, resolved⟩
      exact ⟨statement, List.mem_filter.mpr ⟨listed, beq_iff_eq.mpr resolved⟩, something⟩
    · rintro ⟨statement, among, something⟩
      obtain ⟨listed, resolved⟩ := List.mem_filter.mp among
      exact ⟨statement, listed, something, beq_iff_eq.mp resolved⟩
  refine ⟨depends, ?_⟩
  rw [depends]
  constructor
  · exact Iff.mpr
  · intro some
    refine ⟨?_, some⟩
    rintro ⟨statement, among, -⟩
    exact List.ne_nil_of_mem among

/-- A re-export, an import for its effects and a statement with nothing between its braces. -/
theorem dependent_iff_bringsIn_three_statements :
    let content := "export { x } from './b';\nimport './b';\nimport {} from './c';\n"
    let files := [("a.ts", content), ("b.ts", "export const x = 1;\n"), ("c.ts", "")]
    let resolver : ImportResolver := ⟨"@/", ""⟩
    (files.map (·.1)).Nodup ∧ ∃ graph, build (nodesOfFiles files) resolver = .ok graph ∧
      "a.ts" ∈ (graph.dependents "b.ts").map (·.id) ∧
      (targeting graph resolver content.toList "a.ts" "b.ts").map (·.bringsIn) = [true, true] ∧
      "a.ts" ∉ (graph.dependents "c.ts").map (·.id) ∧
      (targeting graph resolver content.toList "a.ts" "c.ts").map (·.bringsIn) = [false] := by
  intro content files resolver
  have distinct : (files.map (·.1)).Nodup := by decide
  obtain ⟨graph, ok, agree⟩ := dependent_iff_bringsIn distinct resolver
  have first := (agree "a.ts" content List.mem_cons_self "b.ts" (by decide)).1
  have second := (agree "a.ts" content List.mem_cons_self "c.ts" (by decide)).1
  have found : (targeting graph resolver content.toList "a.ts" "b.ts").map (·.bringsIn) =
        [true, true] ∧
      (targeting graph resolver content.toList "a.ts" "c.ts").map (·.bringsIn) = [false] := by
    have evaluated : (build (nodesOfFiles files) resolver).toOption.map (fun graph =>
        ((targeting graph resolver content.toList "a.ts" "b.ts").map (·.bringsIn),
          (targeting graph resolver content.toList "a.ts" "c.ts").map (·.bringsIn))) =
        some ([true, true], [false]) := by decide +kernel
    rw [ok] at evaluated
    exact Prod.mk.inj (Option.some.inj evaluated)
  refine ⟨distinct, graph, ok, first.mpr ?_, found.1, fun depends => ?_, found.2⟩
  · have mem : true ∈ (targeting graph resolver content.toList "a.ts" "b.ts").map (·.bringsIn) := by
      simp [found.1]
    exact List.mem_map.mp mem
  · have mem : true ∈ (targeting graph resolver content.toList "a.ts" "c.ts").map (·.bringsIn) :=
      List.mem_map.mpr (second.mp depends)
    simp [found.2] at mem

/-- A file that imports another one with nothing between its braces: there is a statement that
stands for the other file, but no edge. -/
theorem not_dependent_of_empty_braces :
    let content := "import {} from './b';\n"
    let files := [("a.ts", content), ("b.ts", "")]
    let resolver : ImportResolver := ⟨"@/", ""⟩
    ∃ graph, build (nodesOfFiles files) resolver = .ok graph ∧
      ¬ ("a.ts" ∈ (graph.dependents "b.ts").map (·.id) ↔
        targeting graph resolver content.toList "a.ts" "b.ts" ≠ []) := by
  intro content files resolver
  obtain ⟨graph, ok, -⟩ := exists_build (nodesOfFiles files) resolver
  have evaluated : (build (nodesOfFiles files) resolver).toOption.map (fun graph =>
      ((graph.dependents "b.ts").map (·.id),
        (targeting graph resolver content.toList "a.ts" "b.ts").length)) =
      some ([], 1) := by decide
  rw [ok] at evaluated
  obtain ⟨nobody, one⟩ := Prod.mk.inj (Option.some.inj evaluated)
  refine ⟨graph, ok, fun agree => ?_⟩
  have some : targeting graph resolver content.toList "a.ts" "b.ts" ≠ [] :=
    List.ne_nil_of_length_pos (by omega)
  rw [nobody] at agree
  exact absurd (agree.mpr some) List.not_mem_nil

end DependencyGraph

end ChangeImpact
