import ChangeImpact.Proofs.Wire.Node
import ChangeImpact.Wire.Change

/-!
# Changes, patches and impact reports in JSON

Each is read back as it was written. A field that is not set is left out, and read as not set; the
warnings of a report are left out if there are none.
-/

namespace ChangeImpact

open Json (Lawful record?_obj record?_all required optional?_of_lookup)

/-! ## Changes -/

theorem ChangeKind.find?_name (kind : ChangeKind) :
    ChangeKind.all.find? (·.name == kind.name) = some kind := by
  cases kind <;> rfl

def ValueDescriptor.isSet (value : ValueDescriptor) : String → Bool
  | "name" => value.name.isSome
  | "type" => value.typeName.isSome
  | _ => true

theorem ValueDescriptor.keys_toJson (value : ValueDescriptor) :
    value.toJson.keys = ["name", "type"].filter value.isSet := by
  obtain ⟨name, typeName⟩ := value
  cases name <;> cases typeName <;> rfl

theorem ValueDescriptor.lawful (depth : Nat) (value : ValueDescriptor) :
    Lawful (depth + 1) ValueDescriptor.toJson ValueDescriptor.ofJson? value := by
  have name : ∀ text ∈ value.name, Lawful depth .str Json.str? text := fun text _ => .str depth text
  have typeName : ∀ text ∈ value.typeName, Lawful depth .str Json.str? text :=
    fun text _ => .str depth text
  refine ⟨.obj ?_, ?_⟩
  · simp only [List.forall_mem_append, Json.forall_mem_optional]
    exact ⟨fun text set => (name text set).fits, fun text set => (typeName text set).fits⟩
  · have members := record?_obj (by decide) value.keys_toJson
    rw [ValueDescriptor.ofJson?, ValueDescriptor.toJson, members]
    simp only [Option.bind_eq_bind, Option.bind_some]
    rw [optional?_of_lookup ?_ rfl name, optional?_of_lookup ?_ rfl typeName]
    · rfl
    · simp [List.lookup_append]
    · simp [List.lookup_append]

def ChangeDescriptor.isSet (change : ChangeDescriptor) : String → Bool
  | "before" => change.before.isSome
  | "after" => change.after.isSome
  | _ => true

theorem ChangeDescriptor.keys_toJson (change : ChangeDescriptor) :
    change.toJson.keys = ["nodeId", "changeType", "before", "after"].filter change.isSet := by
  obtain ⟨nodeId, kind, before, after⟩ := change
  cases before <;> cases after <;> rfl

theorem ChangeDescriptor.lawful (depth : Nat) (change : ChangeDescriptor) :
    Lawful (depth + 2) ChangeDescriptor.toJson ChangeDescriptor.ofJson? change := by
  have kind := Lawful.named (depth + 1) change.changeType.find?_name
  have before : ∀ value ∈ change.before, Lawful (depth + 1) _ _ value :=
    fun value _ => value.lawful depth
  have after : ∀ value ∈ change.after, Lawful (depth + 1) _ _ value :=
    fun value _ => value.lawful depth
  refine ⟨.obj ?_, ?_⟩
  · simp only [List.forall_mem_append, Json.forall_mem_optional]
    refine ⟨⟨?_, fun value set => (before value set).fits⟩, fun value set => (after value set).fits⟩
    simp [Json.Fits.str]
  · have members := record?_obj (by decide) change.keys_toJson
    rw [ChangeDescriptor.ofJson?, ChangeDescriptor.toJson, members]
    simp only [Option.bind_eq_bind, Option.bind_some]
    rw [optional?_of_lookup ?_ rfl before, optional?_of_lookup ?_ rfl after]
    · simp [required, List.lookup_cons, Json.str?, kind.reads]
    · simp [List.lookup_append, List.lookup_cons]
    · simp [List.lookup_append, List.lookup_cons]

/-! ## Patches -/

def Patch.InRange (patch : Patch) : Prop :=
  patch.line < 0x100000000

instance (patch : Patch) : Decidable patch.InRange :=
  inferInstanceAs (Decidable (patch.line < 0x100000000))

def Patch.isSet (patch : Patch) : String → Bool
  | "applied" => patch.applied.isSome
  | "error" => patch.error.isSome
  | _ => true

theorem Patch.keys_toJson (patch : Patch) :
    patch.toJson.keys = Patch.fieldNames.filter patch.isSet := by
  obtain ⟨id, path, line, oldCode, newCode, description, autoFixable, applied, error⟩ := patch
  cases applied <;> cases error <;> rfl

theorem Patch.lawful (depth : Nat) {patch : Patch} (range : patch.InRange) :
    Lawful (depth + 1) Patch.toJson Patch.ofJson? patch := by
  have line := Lawful.nat32 depth range
  have applied : ∀ value ∈ patch.applied, Lawful depth .bool Json.bool? value :=
    fun value _ => .bool depth value
  have error : ∀ text ∈ patch.error, Lawful depth .str Json.str? text :=
    fun text _ => .str depth text
  refine ⟨.obj ?_, ?_⟩
  · simp only [List.forall_mem_append, Json.forall_mem_optional]
    refine ⟨⟨?_, fun value set => (applied value set).fits⟩, fun text set => (error text set).fits⟩
    simp [Json.Fits.str, Json.Fits.bool, line.fits]
  · have members := record?_obj (by decide) patch.keys_toJson
    rw [Patch.ofJson?, Patch.toJson, members]
    simp only [Option.bind_eq_bind, Option.bind_some]
    rw [optional?_of_lookup ?_ rfl applied, optional?_of_lookup ?_ rfl error]
    · simp [required, List.lookup_cons, Json.str?, Json.bool?, line.reads]
    · simp [List.lookup_append, List.lookup_cons]
    · simp [List.lookup_append, List.lookup_cons]

theorem Patch.lawful_list (depth : Nat) {patches : List Patch}
    (range : ∀ patch ∈ patches, patch.InRange) :
    Lawful (depth + 2) (Json.list Patch.toJson) (Json.list? Patch.ofJson?) patches :=
  .list fun patch mem => Patch.lawful depth (range patch mem)

structure PatchApplyResult.InRange (result : PatchApplyResult) : Prop where
  applied : ∀ patch ∈ result.patchesApplied, patch.InRange
  failed : ∀ patch ∈ result.patchesFailed, patch.InRange

theorem PatchApplyResult.keys_toJson (result : PatchApplyResult) :
    result.toJson.keys = PatchApplyResult.fieldNames :=
  rfl

theorem PatchApplyResult.lawful (depth : Nat) {result : PatchApplyResult} (range : result.InRange) :
    Lawful (depth + 3) PatchApplyResult.toJson PatchApplyResult.ofJson? result := by
  have applied := Patch.lawful_list depth range.applied
  have failed := Patch.lawful_list depth range.failed
  have errors := Lawful.strings (depth + 1) result.errors
  have modified := Lawful.strings (depth + 1) result.filesModified
  refine ⟨.obj ?_, ?_⟩
  · simp [Json.Fits.bool, applied.fits, failed.fits, errors.fits, modified.fits]
  · have members := record?_all (by decide) result.keys_toJson
    rw [PatchApplyResult.ofJson?, PatchApplyResult.toJson, members]
    simp [required, List.lookup_cons, Json.bool?, applied.reads, failed.reads, errors.reads,
      modified.reads]

/-! ## Impact reports -/

theorem RiskLevel.find?_name (level : RiskLevel) :
    RiskLevel.all.find? (·.name == level.name) = some level := by
  cases level <;> rfl

def ImpactedNode.InRange (node : ImpactedNode) : Prop :=
  ∀ line ∈ node.lines, line < 0x100000000

theorem ImpactedNode.keys_toJson (node : ImpactedNode) :
    node.toJson.keys = ["nodeId", "path", "name", "kind", "lines", "breaking", "reason"] :=
  rfl

theorem ImpactedNode.lawful (depth : Nat) {node : ImpactedNode} (range : node.InRange) :
    Lawful (depth + 2) ImpactedNode.toJson ImpactedNode.ofJson? node := by
  have kind := Lawful.named (depth + 1) node.kind.find?_name
  have lines : Lawful (depth + 1) _ _ node.lines :=
    .list fun line mem => .nat32 depth (range line mem)
  refine ⟨.obj ?_, ?_⟩
  · simp [Json.Fits.str, Json.Fits.bool, lines.fits]
  · have members := record?_all (by decide) node.keys_toJson
    rw [ImpactedNode.ofJson?, ImpactedNode.toJson, members]
    simp [required, List.lookup_cons, Json.str?, Json.bool?, kind.reads, lines.reads]

theorem ImpactedNode.lawful_list (depth : Nat) {nodes : List ImpactedNode}
    (range : ∀ node ∈ nodes, node.InRange) :
    Lawful (depth + 3) (Json.list ImpactedNode.toJson) (Json.list? ImpactedNode.ofJson?) nodes :=
  .list fun node mem => ImpactedNode.lawful depth (range node mem)

def BreakingChange.InRange (change : BreakingChange) : Prop :=
  change.line < 0x100000000

theorem BreakingChange.keys_toJson (change : BreakingChange) :
    change.toJson.keys = ["nodeId", "path", "line", "code", "reason"] :=
  rfl

theorem BreakingChange.lawful (depth : Nat) {change : BreakingChange} (range : change.InRange) :
    Lawful (depth + 1) BreakingChange.toJson BreakingChange.ofJson? change := by
  have line := Lawful.nat32 depth range
  refine ⟨.obj ?_, ?_⟩
  · simp [Json.Fits.str, line.fits]
  · have members := record?_all (by decide) change.keys_toJson
    rw [BreakingChange.ofJson?, BreakingChange.toJson, members]
    simp [required, List.lookup_cons, Json.str?, line.reads]

namespace ImpactReport

/-- The lines are numbers of 32 bits. -/
structure InRange (report : ImpactReport) : Prop where
  direct : ∀ node ∈ report.directImpact, node.InRange
  transitive : ∀ node ∈ report.transitiveImpact, node.InRange
  breaking : ∀ change ∈ report.breakingChanges, change.InRange
  fixes : ∀ patch ∈ report.suggestedFixes, patch.InRange

def isSet (report : ImpactReport) : String → Bool
  | "warnings" => !report.warnings.isEmpty
  | _ => true

theorem keys_toJson (report : ImpactReport) :
    report.toJson.keys = fieldNames.filter report.isSet := by
  obtain ⟨target, change, direct, transitive, breaking, fixes, level, warnings⟩ := report
  cases warnings <;> rfl

theorem lawful (depth : Nat) {report : ImpactReport} (range : report.InRange) :
    Lawful (depth + 4) toJson ofJson? report := by
  have change := report.change.lawful (depth + 1)
  have direct := ImpactedNode.lawful_list depth range.direct
  have transitive := ImpactedNode.lawful_list depth range.transitive
  have breaking : Lawful (depth + 3) _ _ report.breakingChanges :=
    .list fun change mem => BreakingChange.lawful (depth + 1) (range.breaking change mem)
  have fixes := Patch.lawful_list (depth + 1) range.fixes
  have risk := Lawful.named (depth + 3) report.riskLevel.find?_name
  have warnings := Lawful.strings (depth + 2) report.warnings
  refine ⟨.obj ?_, ?_⟩
  · simp only [List.forall_mem_append]
    refine ⟨?_, ?_⟩
    · simp [Json.Fits.str, change.fits, direct.fits, transitive.fits, breaking.fits, fixes.fits]
    · split <;> simp [warnings.fits]
  · have members := record?_obj (by decide) report.keys_toJson
    rw [ofJson?, toJson, members]
    simp only [Option.bind_eq_bind, Option.bind_some]
    rw [Json.defaulted_of_lookup report.warnings ?_]
    · simp [required, List.lookup_cons, Json.str?, change.reads, direct.reads, transitive.reads,
        breaking.reads, fixes.reads, risk.reads]
    · cases empty : report.warnings.isEmpty with
      | true => exact .inl ⟨by simp [List.lookup_cons], List.isEmpty_iff.mp empty⟩
      | false => exact .inr ⟨_, by simp [List.lookup_cons], warnings.reads⟩

end ImpactReport

end ChangeImpact
