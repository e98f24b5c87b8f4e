import ChangeImpact.Proofs.Wire.Lawful
import ChangeImpact.Wire.Node

/-!
# Nodes in JSON

A node is read back with all that its file declares, as long as its counts and lines are numbers of
32 bits.
-/

namespace ChangeImpact

open Json (Lawful record?_all required)

/-! ## Names -/

theorem NodeKind.find?_name (kind : NodeKind) :
    NodeKind.all.find? (·.name == kind.name) = some kind := by
  cases kind <;> rfl

theorem ImportKind.find?_name (kind : ImportKind) :
    ImportKind.all.find? (·.name == kind.name) = some kind := by
  cases kind <;> rfl

theorem ExportKind.find?_name (kind : ExportKind) :
    ExportKind.all.find? (·.name == kind.name) = some kind := by
  cases kind <;> rfl

theorem HttpMethod.find?_name (method : HttpMethod) :
    HttpMethod.all.find? (·.name == method.name) = some method := by
  cases method <;> rfl

/-! ## What a file declares -/

def ImportRef.InRange (ref : ImportRef) : Prop :=
  ref.line < 0x100000000

theorem ImportRef.keys_toJson (ref : ImportRef) :
    ref.toJson.keys = ["name", "source", "kind", "line"] :=
  rfl

theorem ImportRef.lawful (depth : Nat) {ref : ImportRef} (range : ref.InRange) :
    Lawful (depth + 1) ImportRef.toJson ImportRef.ofJson? ref where
  fits := .obj (by
    have line := (Lawful.nat32 depth range).fits
    simp [Json.Fits.str, line])
  reads := by
    have kind := (Lawful.named depth ref.kind.find?_name).reads
    have line := (Lawful.nat32 depth range).reads
    have members := record?_all (by decide) ref.keys_toJson
    rw [ImportRef.ofJson?, ImportRef.toJson, members]
    simp [required, List.lookup_cons, Json.str?, kind, line]

def ExportRef.InRange (ref : ExportRef) : Prop :=
  ref.line < 0x100000000

theorem ExportRef.keys_toJson (ref : ExportRef) : ref.toJson.keys = ["name", "kind", "line"] :=
  rfl

theorem ExportRef.lawful (depth : Nat) {ref : ExportRef} (range : ref.InRange) :
    Lawful (depth + 1) ExportRef.toJson ExportRef.ofJson? ref where
  fits := .obj (by
    have line := (Lawful.nat32 depth range).fits
    simp [Json.Fits.str, line])
  reads := by
    have kind := (Lawful.named depth ref.kind.find?_name).reads
    have line := (Lawful.nat32 depth range).reads
    have members := record?_all (by decide) ref.keys_toJson
    rw [ExportRef.ofJson?, ExportRef.toJson, members]
    simp [required, List.lookup_cons, Json.str?, kind, line]

theorem FieldDef.keys_toJson (field : FieldDef) :
    field.toJson.keys = ["name", "type", "optional"] :=
  rfl

theorem FieldDef.lawful (depth : Nat) (field : FieldDef) :
    Lawful (depth + 1) FieldDef.toJson FieldDef.ofJson? field where
  fits := .obj (by simp [Json.Fits.str, Json.Fits.bool])
  reads := by
    have members := record?_all (by decide) field.keys_toJson
    rw [FieldDef.ofJson?, FieldDef.toJson, members]
    simp [required, List.lookup_cons, Json.str?, Json.bool?]

theorem FieldDef.lawful_list (depth : Nat) (fields : List FieldDef) :
    Lawful (depth + 2) (Json.list FieldDef.toJson) (Json.list? FieldDef.ofJson?) fields :=
  .list fun field _ => field.lawful depth

theorem HttpMethod.lawful_list (depth : Nat) (methods : List HttpMethod) :
    Lawful (depth + 1) (Json.list fun method => .str (HttpMethod.name method))
      (Json.list? (Json.named? HttpMethod.all HttpMethod.name)) methods :=
  .list fun method _ => .named depth method.find?_name

/-! ## Facts -/

theorem NodeFacts.fits_toJson (depth : Nat) (facts : NodeFacts) :
    Json.Fits (depth + 3) facts.toJson := by
  have defs : ∀ fields, Json.Fits (depth + 2) (.list FieldDef.toJson fields) :=
    fun fields => (FieldDef.lawful_list depth fields).fits
  have texts : ∀ texts, Json.Fits (depth + 2) (.strings texts) :=
    fun texts => (Lawful.strings (depth + 1) texts).fits
  have methods : ∀ methods, Json.Fits (depth + 2)
      (.list (fun method => .str (HttpMethod.name method)) methods) :=
    fun methods => (HttpMethod.lawful_list (depth + 1) methods).fits
  cases facts <;> refine .obj ?_ <;> simp [Json.Fits.str, defs, texts, methods]

/-- The tag that is written tells the reader which facts follow. -/
theorem NodeFacts.ofJson?_toJson (facts : NodeFacts) :
    NodeFacts.ofJson? facts.toJson = some facts := by
  have defs := fun fields => (FieldDef.lawful_list 0 fields).reads
  have texts := fun texts => (Lawful.strings 0 texts).reads
  have methods := fun methods => (HttpMethod.lawful_list 0 methods).reads
  cases facts <;>
    simp [NodeFacts.toJson, NodeFacts.ofJson?, NodeFacts.ofTagged?, NodeFacts.single?, Json.record?,
      required, List.lookup_cons, Json.str?, defs, texts, methods]

theorem NodeFacts.lawful (depth : Nat) (facts : NodeFacts) :
    Lawful (depth + 3) NodeFacts.toJson NodeFacts.ofJson? facts :=
  ⟨facts.fits_toJson depth, facts.ofJson?_toJson⟩

/-! ## Nodes -/

structure CodeNode.InRange (node : CodeNode) : Prop where
  lineCount : node.lineCount < 0x100000000
  complexity : node.complexity < 0x100000000
  imports : ∀ ref ∈ node.imports, ref.InRange
  exports : ∀ ref ∈ node.exports, ref.InRange

theorem CodeNode.keys_toJson (node : CodeNode) : node.toJson.keys = CodeNode.fieldNames :=
  rfl

theorem CodeNode.lawful (depth : Nat) {node : CodeNode} (range : node.InRange) :
    Lawful (depth + 4) CodeNode.toJson CodeNode.ofJson? node := by
  have kind := Lawful.named (depth + 3) node.kind.find?_name
  have lineCount := Lawful.nat32 (depth + 3) range.lineCount
  have complexity := Lawful.nat32 (depth + 3) range.complexity
  have imports : Lawful (depth + 3) _ _ node.imports :=
    .list fun ref mem => ImportRef.lawful (depth + 1) (range.imports ref mem)
  have exports : Lawful (depth + 3) _ _ node.exports :=
    .list fun ref mem => ExportRef.lawful (depth + 1) (range.exports ref mem)
  have facts := node.facts.lawful depth
  refine ⟨.obj ?_, ?_⟩
  · simp [Json.Fits.str, lineCount.fits, complexity.fits, imports.fits, exports.fits, facts.fits]
  · have members := record?_all (by decide) node.keys_toJson
    rw [CodeNode.ofJson?, CodeNode.toJson, members]
    simp [required, List.lookup_cons, Json.str?, kind.reads, lineCount.reads, complexity.reads,
      imports.reads, exports.reads, facts.reads]

end ChangeImpact
