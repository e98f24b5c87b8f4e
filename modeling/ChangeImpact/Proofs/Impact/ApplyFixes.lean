import ChangeImpact.Proofs.Impact.AutoFix
import ChangeImpact.Proofs.Patch.Batch
import ChangeImpact.Proofs.Patch.Isolation
import ChangeImpact.Proofs.Rollback.Full
import Mathlib.Data.List.Find

/-!
# Applying the fixes of a report

The fixes that a report makes without asking apply to the files that it was made of, each at its own
line and as it is, and rolling them back gives these files again.
-/

namespace ChangeImpact

/-! ## One fix -/

namespace Patch

def asIs (patch : Patch) : Patch :=
  { patch with applied := some true }

variable {patch : Patch} {line : Rule.Line}

theorem MendsLine.text_eq_nil (mends : patch.MendsLine line) (empty : patch.oldCode = "") :
    patch.newCode = "" := by
  have text : line.text = [] := by simpa [mends.oldCode_eq] using empty
  simpa using mends.mends.nil text

theorem MendsLine.isInsertion_eq (mends : patch.MendsLine line) : patch.isInsertion = false := by
  by_cases empty : patch.oldCode = ""
  · simp [isInsertion, mends.text_eq_nil empty]
  · simp [isInsertion, empty]

theorem MendsLine.textFor_eq (mends : patch.MendsLine line) :
    patch.textFor patch.oldCode = patch.newCode := by
  unfold textFor
  split
  · next empty => exact empty.symm
  · next text =>
    split
    · next bare =>
      have none : Text.leadingBlanks line.text = [] := by
        refine mends.mends.indented (by simpa using text) ?_
        simpa [Text.indentation] using bare
      simp [mends.oldCode_eq, Text.indentation, none]
    · rfl

theorem MendsLine.isLine (mends : patch.MendsLine line) (isLine : Text.IsLine patch.oldCode) :
    Text.IsLine patch.newCode := by
  have text : patch.oldCode.toList = line.text := by simp [mends.oldCode_eq]
  constructor
  · exact fun mem => isLine.1 (text ▸ mends.mends.blanks _ mem (by decide))
  · exact fun mem => isLine.2 (text ▸ mends.mends.blanks _ mem (by decide))

/-- The lines from `number` on with those mended that a fix is for: replaced by the new text, or
left out if it is empty. -/
def mendedFrom (fixes : List Patch) : Nat → List String → List String
  | _, [] => []
  | number, text :: rest =>
    (match fixes.find? (·.line == number) with
      | none => [text]
      | some fix => if fix.newCode = "" then [] else [fix.newCode]) ++
      mendedFrom fixes (number + 1) rest

theorem mendedFrom_nil (number : Nat) (lines : List String) :
    mendedFrom [] number lines = lines := by
  induction lines generalizing number with
  | nil => rfl
  | cons text rest ih => simp [mendedFrom, ih]

theorem editedFrom_eq_mendedFrom {fixes : List Patch} {number : Nat} {lines : List String}
    (edits : ∀ fix ∈ fixes, fix.isInsertion = false)
    (asIs : ∀ fix ∈ fixes, ∀ index text, fix.line = number + index → lines[index]? = some text →
      fix.textFor text = fix.newCode) :
    editedFrom fixes number lines = mendedFrom fixes number lines := by
  have nothing : ∀ n, insertedAt fixes n = [] := by
    intro n
    have none : fixes.find? (fun fix => fix.isInsertion && fix.line == n) = none :=
      List.find?_eq_none.mpr fun fix mem => by simp [edits fix mem]
    simp [insertedAt, none]
  induction lines generalizing number with
  | nil => exact nothing number
  | cons text rest ih =>
    have tail := @ih (number + 1) fun fix mem index text line place =>
      asIs fix mem (index + 1) text (by omega) (by simpa using place)
    have same : fixes.find? (fun fix => !fix.isInsertion && fix.line == number) =
        fixes.find? (·.line == number) :=
      List.find?_congr fun fix mem => by simp [edits fix mem]
    rw [editedFrom, mendedFrom, nothing, List.nil_append, tail, editedAt, same]
    congr 1
    cases found : fixes.find? (·.line == number) with
    | none => rfl
    | some fix =>
      have line : fix.line = number := by simpa using List.find?_some found
      have text := asIs fix (List.mem_of_find?_eq_some found) 0 text line rfl
      simp only [text]

end Patch

open Patch (asIs mendedFrom)

/-! ## The fixes of one file -/

variable {σ : Type} [SourceStore σ] {store : σ} {fixes : List Patch} {path content : String}

def mendedText (fixes : List Patch) (path content : String) : String :=
  Text.ofLines (mendedFrom (fixes.filter (·.path == path)) 1 (Text.lines content))

namespace MendsText

theorem own_of_mem (mends : MendsText path content fixes) {patch : Patch} (mem : patch ∈ fixes) :
    patch.path = path ∧ 1 ≤ patch.line ∧
      (Text.lines content)[patch.line - 1]? = some patch.oldCode ∧
        ∃ line, patch.MendsLine line := by
  obtain ⟨ofPath, line, among, mendsLine⟩ := mends.own patch mem
  obtain ⟨numbered, place⟩ := Rule.lines_of_mem_linesOf among
  rw [← mendsLine.line_eq] at numbered place
  rw [← mendsLine.oldCode_eq] at place
  exact ⟨ofPath, numbered, place, line, mendsLine⟩

theorem fitsLines (mends : MendsText path content fixes) :
    Patch.FitsLines path (Text.lines content) fixes where
  path_eq patch mem := (mends.own_of_mem mem).1
  edit_fits patch mem _ := by
    obtain ⟨-, numbered, place, -⟩ := mends.own_of_mem mem
    exact ⟨numbered, _, place, rfl⟩
  insertion_fits patch mem insertion := by
    obtain ⟨-, -, -, line, mendsLine⟩ := mends.own_of_mem mem
    simp [mendsLine.isInsertion_eq] at insertion
  apart := by
    refine mends.apart.imp ?_
    intro a b differ _
    exact differ

theorem asMade_eq (mends : MendsText path content fixes) {patch : Patch} (mem : patch ∈ fixes) :
    patch.asMade (Text.lines content) = patch.asIs := by
  obtain ⟨-, -, place, line, mendsLine⟩ := mends.own_of_mem mem
  simp [Patch.asMade, mendsLine.isInsertion_eq, place, mendsLine.textFor_eq, Patch.asApplied, asIs,
    ← mendsLine.untried]

theorem map_asMade (mends : MendsText path content fixes) {patches : List Patch}
    (perm : patches.Perm fixes) :
    patches.map (Patch.asMade (Text.lines content)) = patches.map asIs :=
  List.map_congr_left fun _ mem => mends.asMade_eq (perm.mem_iff.mp mem)

theorem editedFrom_eq (mends : MendsText path content fixes) :
    Patch.editedFrom fixes 1 (Text.lines content) = mendedFrom fixes 1 (Text.lines content) := by
  refine Patch.editedFrom_eq_mendedFrom ?_ ?_
  · intro fix mem
    obtain ⟨-, -, -, line, mendsLine⟩ := mends.own_of_mem mem
    exact mendsLine.isInsertion_eq
  · intro fix mem index text line there
    obtain ⟨-, -, place, _, mendsLine⟩ := mends.own_of_mem mem
    have same : fix.line - 1 = index := by omega
    obtain rfl : fix.oldCode = text := Option.some.inj (place.symm.trans (same ▸ there))
    exact mendsLine.textFor_eq

end MendsText

namespace MendsFiles

theorem mendsText (mends : MendsFiles store fixes)
    (readable : SourceStore.read store path = .ok content) :
    MendsText path content (fixes.filter (·.path == path)) := by
  have ofPath : ∀ patch ∈ fixes.filter (·.path == path), patch.path = path := by
    intro patch mem
    simpa using (List.mem_filter.mp mem).2
  constructor
  · intro patch mem
    obtain ⟨content', readable', line, among, mendsLine⟩ :=
      mends.own patch (List.mem_filter.mp mem).1
    rw [ofPath patch mem] at readable'
    obtain rfl : content' = content := Except.ok.inj (readable'.symm.trans readable)
    exact ⟨ofPath patch mem, line, among, mendsLine⟩
  · refine (mends.apart.filter _).imp_of_mem ?_
    intro a b memA memB differ
    exact differ ((ofPath a memA).trans (ofPath b memB).symm)

theorem filePatches_ne_nil (touched : path ∈ fixes.map (·.path)) (mode : EditMode) :
    filePatches mode fixes path ≠ [] := by
  obtain ⟨patch, mem, same⟩ := List.mem_map.mp touched
  have among : patch ∈ fixes.filter (·.path == path) :=
    List.mem_filter.mpr ⟨mem, beq_iff_eq.mpr same⟩
  exact List.ne_nil_of_mem ((Ascending.perm_sortBy _ _).mem_iff.mpr among)

theorem run_filePatches (mends : MendsFiles store fixes)
    (readable : SourceStore.read store path = .ok content) (window : Nat) :
    EditRun.run window .apply ⟨Text.lines content, .lf, true⟩ (filePatches .apply fixes path) =
      ⟨⟨mendedFrom (fixes.filter (·.path == path)) 1 (Text.lines content), .lf, true⟩,
        (filePatches .apply fixes path).map asIs, []⟩ := by
  have sameOrder : filePatches .apply (fixes.filter (·.path == path)) path =
      filePatches .apply fixes path := by
    simp [filePatches, List.filter_filter]
  have own := mends.mendsText readable
  have run := @Patch.FitsLines.run_filePatches ⟨Text.lines content, .lf, true⟩ _ _
    own.fitsLines window
  have perm : (filePatches .apply fixes path).Perm (fixes.filter (·.path == path)) :=
    Ascending.perm_sortBy _ _
  rw [sameOrder] at run
  rw [run, own.editedFrom_eq, own.map_asMade perm]

/-- The fixes of a file are all made and written, or none of them if the write is refused. -/
theorem pathOutcome_eq (mends : MendsFiles store fixes)
    (readable : SourceStore.read store path = .ok content) (whole : Text.IsLineText content)
    (touched : path ∈ fixes.map (·.path)) (window : Nat) :
    let own := (filePatches .apply fixes path).map asIs
    pathOutcome window store fixes path =
      match SourceStore.write store path (mendedText fixes path content) with
      | .ok after => (after, .ofParts own [] [] [path])
      | .error cause => (store, .ofFailures (own.map (·, .unwritable path cause))) := by
  intro own
  have text : Document.render
      ⟨mendedFrom (fixes.filter (·.path == path)) 1 (Text.lines content), .lf, true⟩ =
        mendedText fixes path content := Document.render_lf _
  have made : own.isEmpty = false := by simpa [own] using filePatches_ne_nil touched .apply
  unfold pathOutcome applyToFile
  simp only [readable, Document.parse_of_isLineText whole, mends.run_filePatches readable, text]
  rw [if_neg (by simp [own, made])]
  cases SourceStore.write store path (mendedText fixes path content) with
  | ok after => rfl
  | error cause => rfl

end MendsFiles

/-! ## All fixes -/

theorem perm_of_filter_path {xs ys : List Patch}
    (each : ∀ path, (xs.filter (·.path == path)).Perm (ys.filter (·.path == path))) :
    xs.Perm ys := by
  rw [List.perm_iff_count]
  intro patch
  have counts := List.perm_iff_count.mp (each patch.path) patch
  rwa [List.count_filter (by simp), List.count_filter (by simp)] at counts

theorem MendsFiles.exists_read (mends : MendsFiles store fixes)
    (touched : path ∈ fixes.map (·.path)) :
    ∃ content, SourceStore.read store path = .ok content := by
  obtain ⟨patch, mem, rfl⟩ := List.mem_map.mp touched
  obtain ⟨content, readable, -⟩ := mends.own patch mem
  exact ⟨content, readable⟩

theorem mendedText_of_not_mem (absent : path ∉ fixes.map (·.path))
    (whole : Text.IsLineText content) : mendedText fixes path content = content := by
  rw [mendedText, filter_path_eq_nil absent, Patch.mendedFrom_nil, Text.ofLines_lines whole]

theorem MendsFiles.refused_of_mem_patchesFailed [LawfulStore σ] (mends : MendsFiles store fixes)
    (whole : HoldsLineTexts store) (window : Nat) {patch : Patch}
    (failed : patch ∈ (applyAll window .apply store fixes).2.patchesFailed) :
    ∃ text cause, SourceStore.write store patch.path text = .error cause := by
  have own : patch ∈ (pathOutcome window store fixes patch.path).2.patchesFailed := by
    rw [← (applyAll_isolated window store fixes patch.path).2.1]
    exact List.mem_filter.mpr ⟨failed, beq_self_eq_true _⟩
  by_cases touched : patch.path ∈ fixes.map (·.path)
  · obtain ⟨content, readable⟩ := mends.exists_read touched
    rw [mends.pathOutcome_eq readable (whole _ _ readable) touched] at own
    cases written : SourceStore.write store patch.path (mendedText fixes patch.path content) with
    | ok after => simp [written, PatchApplyResult.ofParts] at own
    | error cause => exact ⟨_, cause, written⟩
  · simp [(pathOutcome_of_not_mem touched window store).2] at own

theorem MendsFiles.pathOutcome_of_acceptsWrites [LawfulStore σ] (mends : MendsFiles store fixes)
    (whole : HoldsLineTexts store) (accepts : SourceStore.AcceptsWrites store) (window : Nat)
    (path : String) :
    let own := pathOutcome window store fixes path
    own.2.patchesFailed = [] ∧
      own.2.patchesApplied.Perm ((fixes.filter (·.path == path)).map asIs) ∧
        ∀ content, SourceStore.read store path = .ok content →
          SourceStore.read own.1 path = .ok (mendedText fixes path content) := by
  intro own
  by_cases touched : path ∈ fixes.map (·.path)
  · obtain ⟨content, readable⟩ := mends.exists_read touched
    obtain ⟨after, written⟩ := accepts path (mendedText fixes path content)
    have outcome : own =
        (after, .ofParts ((filePatches .apply fixes path).map asIs) [] [] [path]) := by
      have outcome := mends.pathOutcome_eq readable (whole _ _ readable) touched window
      simpa only [written] using outcome
    rw [outcome]
    refine ⟨rfl, (Ascending.perm_sortBy _ _).map asIs, ?_⟩
    intro content' readable'
    obtain rfl : content = content' := Except.ok.inj (readable.symm.trans readable')
    exact LawfulStore.read_write readable written
  · obtain ⟨applied, failed⟩ := pathOutcome_of_not_mem touched window store
    refine ⟨failed, ?_, ?_⟩
    · rw [applied, filter_path_eq_nil touched]
      exact .nil
    · intro content readable
      rw [mendedText_of_not_mem touched (whole _ _ readable)]
      rcases (pathOutcome_outcome window store fixes path).written with ⟨-, -, same⟩ | ⟨some, -⟩
      · exact same ▸ readable
      · exact (some applied).elim

/-- Where writes are accepted, all fixes are made as they are. -/
theorem MendsFiles.applyAll_of_acceptsWrites [LawfulStore σ] (mends : MendsFiles store fixes)
    (whole : HoldsLineTexts store) (accepts : SourceStore.AcceptsWrites store) (window : Nat) :
    let outcome := applyAll window .apply store fixes
    outcome.2.patchesFailed = [] ∧ outcome.2.patchesApplied.Perm (fixes.map asIs) ∧
      ∀ path content, SourceStore.read store path = .ok content →
        SourceStore.read outcome.1 path = .ok (mendedText fixes path content) := by
  intro outcome
  have own := mends.pathOutcome_of_acceptsWrites whole accepts window
  refine ⟨?_, ?_, ?_⟩
  · refine List.eq_nil_iff_forall_not_mem.mpr fun patch mem => ?_
    have listed : patch ∈ outcome.2.patchesFailed.filter (·.path == patch.path) :=
      List.mem_filter.mpr ⟨mem, beq_self_eq_true _⟩
    rw [(applyAll_isolated window store fixes patch.path).2.1, (own patch.path).1] at listed
    exact absurd listed List.not_mem_nil
  · refine perm_of_filter_path fun path => ?_
    rw [(applyAll_isolated window store fixes path).1, List.filter_map]
    exact (own path).2.1
  · intro path content readable
    exact (applyAll_isolated window store fixes path).2.2.trans ((own path).2.2 content readable)

namespace PatchEngine

/-- The fixes that a report on a rename or on the removal of a field makes without asking apply
cleanly and undo cleanly. A fix fails only if the write of its file is refused. If none is, every
fix is made as it is, at its own line, no other line is changed, and rolling everything back gives
every file again. -/
theorem apply_autoFixes [LawfulStore σ] (engine : PatchEngine) {graph : DependencyGraph}
    {resolver : ImportResolver} {change : ChangeDescriptor} {target : CodeNode}
    {refusal? : Pattern → Option String} {report : ImpactReport}
    (paths : ∀ node ∈ graph.nodes, node.id = node.path)
    (whole : HoldsLineTexts store) (found : graph.node? change.nodeId = some target)
    (lineByLine : change.MendsLines target)
    (made : ImpactReport.ofChange graph store resolver change refusal? = .ok report)
    (unused : engine.history = []) (room : report.autoFixes.length ≤ engine.historyLimit) :
    let outcome := engine.apply store report.autoFixes
    let back := outcome.1.rollback outcome.2.1 none
    (∀ patch ∈ outcome.2.2.patchesFailed,
      ∃ text cause, SourceStore.write store patch.path text = .error cause) ∧
    (SourceStore.AcceptsWrites store →
      (outcome.2.2.success = true ∧ outcome.2.2.patchesFailed = [] ∧
        outcome.2.2.patchesApplied.Perm
          (report.autoFixes.map fun fix => { fix with applied := some true }) ∧
        ∀ path content, SourceStore.read store path = .ok content →
          SourceStore.read outcome.2.1 path = .ok (Text.ofLines
            (mendedFrom (report.autoFixes.filter (·.path == path)) 1 (Text.lines content)))) ∧
      back.2.2.success = true ∧ back.1.history = [] ∧
        ∀ path, SourceStore.read back.2.1 path = SourceStore.read store path) := by
  have report_eq :
      report = ImpactReport.ofTarget graph store resolver change target refusal? := by
    simpa [ImpactReport.ofChange, found] using made.symm
  have mends : MendsFiles store report.autoFixes := by
    rw [report_eq]
    exact ImpactReport.mendsFiles_autoFixes paths lineByLine refusal?
  intro outcome back
  refine ⟨fun patch failed => ?_, fun accepts => ?_⟩
  · exact mends.refused_of_mem_patchesFailed whole engine.driftWindow failed
  have accounts := accounts_applyAll engine.driftWindow store report.autoFixes
  obtain ⟨failed, applied, files⟩ :=
    mends.applyAll_of_acceptsWrites whole accepts engine.driftWindow
  have success : outcome.2.2.success = true := by
    refine accounts.success.mpr ?_
    rw [accounts.errors, failed]
    rfl
  -- What is recorded are the fixes themselves, so that the records can be undone one by one.
  have records : ∀ entry ∈ outcome.2.2.patchesApplied,
      Text.IsLine entry.newCode ∧ entry.isInsertion = false := by
    intro entry mem
    obtain ⟨fix, listed, rfl⟩ := List.mem_map.mp (applied.mem_iff.mp mem)
    obtain ⟨content, readable, line, among, mendsLine⟩ := mends.own fix listed
    obtain ⟨-, place⟩ := Rule.lines_of_mem_linesOf among
    have isLine := Text.isLine_of_mem_lines (whole _ _ readable) (List.mem_of_getElem? place)
    exact ⟨mendsLine.isLine (mendsLine.oldCode_eq ▸ isLine), mendsLine.isInsertion_eq⟩
  have length : outcome.2.2.patchesApplied.length ≤ engine.historyLimit := by
    refine Nat.le_trans (Nat.le_of_eq applied.length_eq) ?_
    rwa [List.length_map]
  refine ⟨⟨success, failed, applied, files⟩, ?_⟩
  exact rollback_none_of_apply ⟨unused, accepts, whole⟩ (fun entry mem => (records entry mem).1)
    (fun entry mem => (records entry mem).2) length

/-- A field is removed that is read in an indented line, twice in a line that stays, and in two
lines of which nothing is left, the second of them the last of the file. -/
theorem apply_autoFixes_lines_left_out :
    let node (path : String) : CodeNode :=
      ⟨path, .typeAlias, "User", path, 1, 1, [], [], .none⟩
    let graph : DependencyGraph :=
      ⟨[node "a.ts", node "b.ts"], [.between "b.ts" "a.ts" .usesType .zero], by decide, by decide⟩
    let store : MemoryStore :=
      { files := [("b.ts", "?.name\n  user.name\nu?.name + v.name\n.name\n")] }
    let change : ChangeDescriptor :=
      { nodeId := "a.ts", changeType := .removeField, before := some { name := some "name" } }
    let report := ImpactReport.ofTarget graph store ⟨"@/", "src"⟩ change (node "a.ts")
    let engine : PatchEngine := ⟨[], 4, 5⟩
    let outcome := engine.apply store report.autoFixes
    let back := outcome.1.rollback outcome.2.1 none
    report.autoFixes.map (fun fix => (fix.line, fix.newCode)) =
        [(1, ""), (2, "  user"), (3, "u + v"), (4, "")] ∧
      outcome.2.2.success = true ∧
      SourceStore.read outcome.2.1 "b.ts" = .ok "  user\nu + v\n" ∧
      back.2.2.success = true ∧
      SourceStore.read back.2.1 "b.ts" = SourceStore.read store "b.ts" := by
  intro node graph store change report engine
  have paths : ∀ node ∈ graph.nodes, node.id = node.path := by decide
  have whole : HoldsLineTexts store := MemoryStore.holdsLineTexts (by decide)
  have found : graph.node? change.nodeId = some (node "a.ts") := by rfl
  have made : ImpactReport.ofChange graph store ⟨"@/", "src"⟩ change = .ok report := by
    simp [ImpactReport.ofChange, found, report]
  have room : report.autoFixes.length ≤ engine.historyLimit := by decide
  have readable : SourceStore.read store "b.ts" =
      .ok "?.name\n  user.name\nu?.name + v.name\n.name\n" := by rfl
  have clean := apply_autoFixes engine paths whole found (.inr rfl) made rfl room
  dsimp only at clean ⊢
  obtain ⟨⟨success, -, -, files⟩, undone, -, restored⟩ := clean.2 (MemoryStore.acceptsWrites rfl)
  refine ⟨by decide, success, (files _ _ readable).trans ?_, undone, restored "b.ts"⟩
  decide

end PatchEngine

end ChangeImpact
