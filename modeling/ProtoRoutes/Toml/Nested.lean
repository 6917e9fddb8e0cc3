import ProtoRoutes.Toml.Scalar
import ProtoRoutes.Toml.Text

/-!
# ProtoRoutes.Toml.Nested

Arrays, inline tables and, with them, all values. An array may run over several lines and end with a
comma; an inline table may do neither. What an inline table holds in an array or table of its own is
closed: a later key of the same inline table cannot add to it.

Each function takes a bound on the values that it reads inside of each other and beside each other,
which no text reaches that is shorter than the bound.
-/

namespace ProtoRoutes.Toml

/-- Whether a value is an array or a table. -/
def Value.isNest : Value → Bool
  | array _ => true
  | table _ => true
  | _ => false

/-- Whether one of the paths leads to a path or above it. -/
def covers (paths : List KeyPath) (path : KeyPath) : Bool :=
  paths.any (·.isPrefixOf path)

/-- An inline table under construction. -/
structure InlineTable where
  table : Table
  /-- The paths of its arrays and tables. -/
  closed : List KeyPath

/-- The inline table with one more key. -/
def InlineTable.add? (t : InlineTable) (path : KeyPath) (v : Value) : Option InlineTable :=
  if covers t.closed path then none
  else
    let change := fun inner => Table.add? inner (path.getLast?.getD "") v
    (t.table.within false change path.dropLast).map fun table =>
      ⟨table, if v.isNest then path :: t.closed else t.closed⟩

mutual

/-- A value. -/
def valueWithin : Nat → Reader Value
  | 0 => Reader.malformed
  | bound + 1 => do
    match ← Reader.peek? with
    | some '"' => Value.string <$> Reader.ofOption string?
    | some '\'' => Value.string <$> Reader.ofOption string?
    | some '[' =>
      Reader.expect "["
      skipGap
      if ← Reader.take? "]" then pure (.array []) else Value.array <$> itemsWithin bound
    | some '\x7b' =>
      Reader.expect "\x7b"
      skipBlanks
      if ← Reader.take? "\x7d" then pure (.table [])
      else Value.table <$> entriesWithin bound ⟨[], []⟩
    | _ =>
      if ← Reader.take? "true" then pure (.boolean true)
      else if ← Reader.take? "false" then pure (.boolean false)
      else scalar

/-- The rest of an array, from a value on. -/
def itemsWithin : Nat → Reader (List Value)
  | 0 => Reader.malformed
  | bound + 1 => do
    let v ← valueWithin bound
    skipGap
    if ← Reader.take? "]" then pure [v]
    else
      Reader.expect ","
      skipGap
      if ← Reader.take? "]" then pure [v]
      else
        let rest ← itemsWithin bound
        pure (v :: rest)

/-- The rest of an inline table, from a key on. -/
def entriesWithin : Nat → InlineTable → Reader Table
  | 0, _ => Reader.malformed
  | bound + 1, t => do
    let path ← key
    Reader.expect "="
    skipBlanks
    let v ← valueWithin bound
    match t.add? path v with
    | none => Reader.malformed
    | some t =>
      skipBlanks
      if ← Reader.take? "\x7d" then pure t.table
      else
        Reader.expect ","
        skipBlanks
        entriesWithin bound t

end

/-- A value. Every value and every item of the text takes at least one character. -/
def value : Reader Value := fun cs => valueWithin (2 * cs.length + 2) cs

end ProtoRoutes.Toml
