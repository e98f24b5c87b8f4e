import ChangeImpact.Json.Basic

/-!
# Tables of TOML

A document builds its tables step by step: by headers, by the tables that a header passes through,
and by keys with dots. What may still be added to a table depends on how it came about.
-/

namespace ChangeImpact

inductive TableOrigin where
  /-- It has a header of its own. -/
  | header
  /-- A header below it passes through it. -/
  | passed
  /-- A key with dots passes through it. -/
  | dotted
  deriving DecidableEq, Repr

inductive TomlEntry where
  | value (value : Json)
  | table (origin : TableOrigin) (members : List (String × TomlEntry))
  /-- A list of tables, each with a header of its own. -/
  | tables (elements : List (List (String × TomlEntry)))

/-- The members of a table, in the order in which they were added. -/
abbrev TomlTable := List (String × TomlEntry)

namespace TomlTable

def set (key : String) (entry : TomlEntry) : TomlTable → TomlTable
  | [] => [(key, entry)]
  | (other, old) :: rest =>
    if other = key then (key, entry) :: rest else (other, old) :: set key entry rest

/-- Changes the table at the end of a path. Tables that are missing are made, and in a list of
tables the last one counts. Keys with dots do not lead into a table that has a header. -/
def changeAt (dotted : Bool) (change : TableOrigin → TomlTable → Option TomlTable) :
    List String → TableOrigin → TomlTable → Option TomlTable
  | [], origin, members => change origin members
  | key :: path, _, members =>
    match members.lookup key with
    | none =>
      let origin := if dotted then .dotted else .passed
      (changeAt dotted change path origin []).map fun inner =>
        set key (.table origin inner) members
    | some (.value _) => none
    | some (.tables elements) =>
      match elements.getLast? with
      | none => none
      | some last =>
        (changeAt dotted change path .header last).map fun inner =>
          set key (.tables (elements.dropLast ++ [inner])) members
    | some (.table origin inner) =>
      if dotted && origin == .header then none
      else
        (changeAt dotted change path origin inner).map fun inner =>
          set key (.table origin inner) members

def addNew (key : String) (entry : TomlEntry) (members : TomlTable) : Option TomlTable :=
  if (members.lookup key).isSome then none else some (set key entry members)

/-- Adds the value of a key, which may have dots: only tables that such keys have made take it. -/
def addValue (path : List String) (key : String) (value : Json) (members : TomlTable) :
    Option TomlTable :=
  changeAt true
    (fun origin members =>
      if (origin == .dotted) == path.isEmpty then none else addNew key (.value value) members)
    path .header members

/-- Adds the table of a header. A table that other headers pass through may get its own once. -/
def addTable (path : List String) (key : String) (members : TomlTable) : Option TomlTable :=
  changeAt false
    (fun _ members =>
      match members.lookup key with
      | none => some (set key (.table .header []) members)
      | some (.table .passed inner) => some (set key (.table .header inner) members)
      | some _ => none)
    path .header members

def addElement (path : List String) (key : String) (members : TomlTable) : Option TomlTable :=
  changeAt false
    (fun _ members =>
      match members.lookup key with
      | none => some (set key (.tables [[]]) members)
      | some (.tables elements) => some (set key (.tables (elements ++ [[]])) members)
      | some _ => none)
    path .header members

mutual

def entryJson : TomlEntry → Json
  | .value value => value
  | .table _ members => .obj (membersJson members)
  | .tables elements => .arr (elementsJson elements)

def membersJson : List (String × TomlEntry) → List (String × Json)
  | [] => []
  | (key, entry) :: rest => (key, entryJson entry) :: membersJson rest

def elementsJson : List (List (String × TomlEntry)) → List Json
  | [] => []
  | members :: rest => .obj (membersJson members) :: elementsJson rest

end

def toJson (members : TomlTable) : Json :=
  .obj (membersJson members)

end TomlTable

end ChangeImpact
