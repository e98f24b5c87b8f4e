import ChangeImpact.Proofs.Json.Text
import ChangeImpact.Proofs.Json.Weight

/-!
# Writers and readers of JSON

What a writer and a reader owe each other for one value: what is written fits into a text, and it is
read as the value that was written. Lists and records of such values are such values. A record may
leave members out, and then has the names of the others in the order of its fields.
-/

namespace ChangeImpact.Json

def keys : Json → List String
  | obj members => members.map (·.1)
  | _ => []

/-- The value is written at most `depth` deep, and is read as it was written. -/
structure Lawful (depth : Nat) (write : α → Json) (read : Json → Option α) (value : α) : Prop where
  fits : Fits depth (write value)
  reads : read (write value) = some value

/-- The value is read back from either text that it is written in, and the names in its record are
those of the fields that are set. -/
structure RoundTrips (write : α → Json) (read : Json → Option α) (fields : List String)
    (isSet : String → Bool) (value : α) : Prop where
  compact : (parse? (write value).compact).bind read = some value
  pretty : (parse? (write value).pretty).bind read = some value
  keys : (write value).keys = fields.filter isSet

theorem Lawful.roundTrips {depth : Nat} {write : α → Json} {read : Json → Option α} {value : α}
    (lawful : Lawful depth write read value) (shallow : depth ≤ 127) {fields : List String}
    {isSet : String → Bool} (keys : (write value).keys = fields.filter isSet) :
    RoundTrips write read fields isSet value := by
  have fits := lawful.fits.mono shallow
  refine ⟨?_, ?_, keys⟩
  · rw [parse?_compact fits, Option.bind_some, lawful.reads]
  · rw [parse?_pretty fits, Option.bind_some, lawful.reads]

/-! ## Simple values -/

theorem Lawful.str (depth : Nat) (text : String) : Lawful depth str str? text :=
  ⟨.str depth text, rfl⟩

theorem Lawful.bool (depth : Nat) (value : Bool) : Lawful depth bool bool? value :=
  ⟨.bool depth value, rfl⟩

theorem fits_nat (depth : Nat) {value : Nat} (small : value < 0x10000000000000000) :
    Fits depth (nat value) := by
  refine .int ?_ ?_ <;> omega

theorem nat?_nat {limit value : Nat} (small : value < limit) :
    nat? limit (nat value) = some value := by
  simp [nat?, nat, small]

theorem Lawful.nat32 (depth : Nat) {value : Nat} (small : value < 0x100000000) :
    Lawful depth nat nat32? value :=
  ⟨fits_nat depth (by omega), nat?_nat small⟩

theorem Lawful.nat64 (depth : Nat) {value : Nat} (small : value < 0x10000000000000000) :
    Lawful depth nat nat64? value :=
  ⟨fits_nat depth small, nat?_nat small⟩

theorem Lawful.weight (depth : Nat) (value : Weight) : Lawful depth weight weight? value :=
  ⟨.decimal value.isPlain_toDecimal, value.ofDecimal?_toDecimal⟩

theorem Lawful.named (depth : Nat) {all : List α} {name : α → String} {value : α}
    (found : all.find? (name · == name value) = some value) :
    Lawful depth (fun value => Json.str (name value)) (named? all name) value :=
  ⟨.str depth (name value), found⟩

/-! ## Lists -/

theorem mapM_map {write : α → Json} {read : Json → Option α} {values : List α}
    (reads : ∀ value ∈ values, read (write value) = some value) :
    (values.map write).mapM read = some values := by
  induction values with
  | nil => rfl
  | cons value values ih =>
    have first := reads value List.mem_cons_self
    have later := ih fun value mem => reads value (List.mem_cons_of_mem _ mem)
    simp [first, later]

theorem Lawful.list {depth : Nat} {write : α → Json} {read : Json → Option α} {values : List α}
    (each : ∀ value ∈ values, Lawful depth write read value) :
    Lawful (depth + 1) (list write) (list? read) values := by
  refine ⟨.arr fun item mem => ?_, mapM_map fun value mem => (each value mem).reads⟩
  obtain ⟨value, member, rfl⟩ := List.mem_map.mp mem
  exact (each value member).fits

theorem Lawful.strings (depth : Nat) (texts : List String) :
    Lawful (depth + 1) strings (list? str?) texts :=
  .list fun text _ => .str depth text

/-! ## Records -/

@[simp] theorem lookup_optional (name key : String) (write : α → Json) (value : Option α) :
    (optional name write value).lookup key = if key == name then value.map write else none := by
  cases value with
  | none => simp [optional]
  | some value => cases same : key == name <;> simp [optional, List.lookup_cons, same]

theorem forall_mem_optional {holds : String × Json → Prop} {name : String} {write : α → Json}
    {value : Option α} :
    (∀ member ∈ optional name write value, holds member) ↔
      ∀ set ∈ value, holds (name, write set) := by
  cases value <;> simp [optional]

/-- The members of a record whose names are those of fields, none of them given twice. -/
theorem record?_obj {fields : List String} {members : List (String × Json)} {isSet : String → Bool}
    (distinct : fields.Nodup) (keys : (obj members).keys = fields.filter isSet) :
    record? fields (obj members) = some members := by
  have nodup : (members.map (·.1)).Nodup := by
    show (obj members).keys.Nodup
    rw [keys]
    exact distinct.filter isSet
  have once : (fields.all fun field => members.countP (·.1 == field) ≤ 1) = true := by
    rw [List.all_eq_true]
    intro field _
    have count := List.nodup_iff_count.mp nodup field
    rw [List.count, List.countP_map] at count
    exact decide_eq_true count
  rw [record?, if_pos once]

theorem record?_all {fields : List String} {members : List (String × Json)}
    (distinct : fields.Nodup) (keys : (obj members).keys = fields) :
    record? fields (obj members) = some members := by
  have all : fields.filter (fun _ => true) = fields := List.filter_eq_self.mpr fun _ _ => rfl
  exact record?_obj distinct (keys.trans all.symm)

/-- A member that was left out is not set, and one that was written is set. -/
theorem optional?_of_lookup {depth : Nat} {write : α → Json} {read : Json → Option α}
    {name : String} {members : List (String × Json)} {value : Option α}
    (found : members.lookup name = value.map write) (refuses : read null = none)
    (lawful : ∀ set ∈ value, Lawful depth write read set) :
    optional? read name members = some value := by
  cases value with
  | none => simp [optional?, found]
  | some set =>
    have written := (lawful set rfl).reads
    have notNull : write set ≠ null := by
      intro same
      rw [same, refuses] at written
      exact nomatch written
    rw [Option.map_some] at found
    unfold optional?
    split <;> simp_all

theorem defaulted_of_lookup {read : Json → Option α} {default : α} {name : String}
    {members : List (String × Json)} (value : α)
    (found : members.lookup name = none ∧ value = default ∨
      ∃ json, members.lookup name = some json ∧ read json = some value) :
    defaulted read default name members = some value := by
  rcases found with ⟨missing, rfl⟩ | ⟨json, found, reads⟩
  · simp [defaulted, missing]
  · simp [defaulted, found, reads]

end ChangeImpact.Json
