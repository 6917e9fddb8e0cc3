/-!
# ProtoRoutes.Toml.Value

The values of a TOML document. Tables keep their keys in the order in which they were first written.
Nothing here computes with floats, dates and times, so they keep their spelling.
-/

namespace ProtoRoutes.Toml

/-- A value. -/
inductive Value where
  | string (s : String)
  | integer (n : Int)
  | boolean (b : Bool)
  | float (spelling : String)
  | datetime (spelling : String)
  | date (spelling : String)
  | time (spelling : String)
  | array (items : List Value)
  | table (entries : List (String × Value))
  deriving Inhabited

/-- The keys of a table with their values. -/
abbrev Table := List (String × Value)

/-- A dotted key. -/
abbrev KeyPath := List String

namespace Table

/-- The table with a value behind a key. A key that is there keeps its place. -/
def set (t : Table) (key : String) (v : Value) : Table :=
  if (t.lookup key).isSome then t.map fun (k, old) => if k = key then (k, v) else (k, old)
  else t ++ [(key, v)]

/-- The table with a value behind a new key. -/
def add? (t : Table) (key : String) (v : Value) : Option Table :=
  if (t.lookup key).isSome then none else some (t ++ [(key, v)])

/-- Changes the table behind a path. Tables that are missing on the way are made. Where
`throughArrays` says so, an array on the way stands for its last table. -/
def within (throughArrays : Bool) (change : Table → Option Table) : KeyPath → Table → Option Table
  | [], t => change t
  | key :: rest, t =>
    match t.lookup key with
    | none => (within throughArrays change rest []).map fun inner => t.set key (.table inner)
    | some (.table inner) =>
      (within throughArrays change rest inner).map fun inner => t.set key (.table inner)
    | some (.array items) =>
      match throughArrays, items.getLast? with
      | true, some (.table inner) =>
        (within throughArrays change rest inner).map fun inner =>
          t.set key (.array (items.dropLast ++ [.table inner]))
      | _, _ => none
    | some _ => none

end Table

end ProtoRoutes.Toml
