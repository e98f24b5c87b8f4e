import ChangeImpact.Weight

/-!
# JSON values

Values as they stand in a text: whole numbers are kept apart from decimal fractions, and an object
keeps its members in order with repetitions. Reading a record asks for its fields by name.
-/

namespace ChangeImpact

inductive Json where
  | null
  | bool (value : Bool)
  | int (value : Int)
  | decimal (value : DecimalFraction)
  | str (value : String)
  | arr (items : List Json)
  | obj (members : List (String × Json))
  deriving Repr

namespace Json

def str? : Json → Option String
  | str value => some value
  | _ => none

def bool? : Json → Option Bool
  | bool value => some value
  | _ => none

def nat? (limit : Nat) : Json → Option Nat
  | int value => if 0 ≤ value ∧ value.toNat < limit then some value.toNat else none
  | _ => none

def nat32? : Json → Option Nat :=
  nat? 0x100000000

def nat64? : Json → Option Nat :=
  nat? 0x10000000000000000

/-- A number as a weight. -/
def weight? : Json → Option Weight
  | int value => Weight.ofDecimal? ⟨decide (value < 0), value.natAbs, 0⟩
  | decimal value => Weight.ofDecimal? value
  | _ => none

def list? (read : Json → Option α) : Json → Option (List α)
  | arr items => items.mapM read
  | _ => none

def nat (value : Nat) : Json :=
  int value

def weight (value : Weight) : Json :=
  decimal value.toDecimal

def list (write : α → Json) (items : List α) : Json :=
  arr (items.map write)

def strings (items : List String) : Json :=
  list str items

/-- A member whose value is left out when it is not set. -/
def optional (name : String) (write : α → Json) : Option α → List (String × Json)
  | none => []
  | some value => [(name, write value)]

/-- The members of a record with the given fields. Members of other names are ignored, and a field
given twice is refused. A record may also be a list of its values in the order of the fields. -/
def record? (fields : List String) : Json → Option (List (String × Json))
  | obj members =>
    if fields.all fun field => members.countP (·.1 == field) ≤ 1 then some members else none
  | arr items => if items.length ≤ fields.length then some (fields.zip items) else none
  | _ => none

/-- The members of a record with the given fields, of which a list holds all. -/
def fullRecord? (fields : List String) : Json → Option (List (String × Json))
  | arr items => if items.length = fields.length then some (fields.zip items) else none
  | json => record? fields json

def required (read : Json → Option α) (name : String) (members : List (String × Json)) : Option α :=
  (members.lookup name).bind read

/-- The value of a member that may be missing or null. -/
def optional? (read : Json → Option α) (name : String) (members : List (String × Json)) :
    Option (Option α) :=
  match members.lookup name with
  | none => some none
  | some null => some none
  | some value => (read value).map some

/-- The value of a member that may be missing, but not null. -/
def defaulted (read : Json → Option α) (default : α) (name : String)
    (members : List (String × Json)) : Option α :=
  match members.lookup name with
  | none => some default
  | some value => read value

/-- One of finitely many values by its name. The name may also be the key of an empty object. -/
def named? (all : List α) (name : α → String) : Json → Option α
  | str text => all.find? (name · == text)
  | obj [(text, null)] => all.find? (name · == text)
  | _ => none

end Json

end ChangeImpact
