import ProtoRoutes.Number.Binary64

/-!
# ProtoRoutes.Schema.Value

Option values: scalars, message literals and list literals. The fields of a message literal keep the
order in which their keys first appear, and a key appears once: values that are given to it later
are gathered into a list.
-/

namespace ProtoRoutes

/-- The value of an option. -/
inductive Value where
  | string (text : String)
  | number (x : Binary64)
  | boolean (b : Bool)
  | identifier (name : String)
  | message (fields : List (String × Value))
  | list (items : List Value)
  deriving Inhabited

namespace Value

/-- Whether a value is a message literal. -/
def isMessage : Value → Bool
  | message _ => true
  | _ => false

/-- The value of a key that had one value and is given another. -/
def gather : Value → Value → Value
  | list items, v => list (items ++ [v])
  | old, v => list [old, v]

/-- Gives a value to a key of a message literal. -/
def addField (fields : List (String × Value)) (key : String) (v : Value) : List (String × Value) :=
  if (fields.lookup key).isSome then
    fields.map fun (k, old) => if k = key then (k, old.gather v) else (k, old)
  else fields ++ [(key, v)]

end Value

/-- An option with its value. The name is written with its parentheses and brackets. -/
structure SchemaOption where
  name : String
  value : Value

namespace SchemaOption

/-- Whether the option is defined by an extension: its name starts with a parenthesis. -/
def isCustom (o : SchemaOption) : Bool :=
  o.name.toList.head? = some '('

/-- The name without parentheses. -/
def bareName (o : SchemaOption) : String :=
  String.ofList (o.name.toList.filter fun c => c ≠ '(' && c ≠ ')')

end SchemaOption

end ProtoRoutes
