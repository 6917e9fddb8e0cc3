import ProtoRoutes.Text.Case

/-!
# ProtoRoutes.Schema.TypeRef

References to types by name. A dotted name is split into a package and a type: the first segment
that starts with an upper-case letter begins the type, as in `google.protobuf.Timestamp` or
`pkg.Outer.Inner`. If no segment does, the last one is the type.
-/

namespace ProtoRoutes

/-- The scalar types. -/
inductive Scalar where
  | double | float | int32 | int64 | uint32 | uint64 | sint32 | sint64 | fixed32
    | fixed64 | sfixed32
  | sfixed64 | bool | string | bytes
  deriving DecidableEq, Repr

namespace Scalar

/-- A scalar type as it is written. -/
def text : Scalar → String
  | double => "double"
  | float => "float"
  | int32 => "int32"
  | int64 => "int64"
  | uint32 => "uint32"
  | uint64 => "uint64"
  | sint32 => "sint32"
  | sint64 => "sint64"
  | fixed32 => "fixed32"
  | fixed64 => "fixed64"
  | sfixed32 => "sfixed32"
  | sfixed64 => "sfixed64"
  | bool => "bool"
  | string => "string"
  | bytes => "bytes"

/-- All scalar types. -/
def all : List Scalar :=
  [double, float, int32, int64, uint32, uint64, sint32, sint64, fixed32, fixed64,
    sfixed32, sfixed64,
   bool, string, bytes]

/-- The scalar type with a name. -/
def ofText? (name : String) : Option Scalar :=
  all.find? (·.text = name)

/-- Whether a map may have keys of this type. -/
def isMapKey : Scalar → Bool
  | double | float | bytes => false
  | _ => true

end Scalar

/-- A reference to a type. -/
structure TypeRef where
  name : String
  package : Option String
  stream : Bool
  deriving DecidableEq, Repr

namespace TypeRef

/-- Whether a segment of a dotted name starts with an upper-case letter. -/
def startsUpper : List Char → Bool
  | [] => false
  | c :: _ => Text.isUpper c

/-- Segments joined by dots. -/
def dotted (segments : List (List Char)) : String :=
  String.ofList (['.'].intercalate segments)

/-- The reference that a dotted name makes. Dots in front of it do not count. -/
def parse (stream : Bool) (name : String) : TypeRef :=
  let segments := (name.toList.dropWhile (· = '.')).splitOn '.'
  let start := (segments.findIdx? startsUpper).getD (segments.length - 1)
  let package := if start = 0 then none else some (dotted (segments.take start))
  ⟨dotted (segments.drop start), package, stream⟩

/-- The name with its package. An empty package counts as none. -/
def fullName (r : TypeRef) : String :=
  match r.package with
  | some package => if package = "" then r.name else package ++ "." ++ r.name
  | none => r.name

/-- The last segment of the name. -/
def simpleName (r : TypeRef) : String :=
  String.ofList ((r.name.toList.splitOn '.').getLast?.getD [])

/-- Whether the name is that of a scalar type. -/
def isScalar (r : TypeRef) : Bool :=
  (Scalar.ofText? r.name).isSome

/-- The types that come with the schema language. -/
def wellKnown : List String :=
  ["google.protobuf.Timestamp", "google.protobuf.Duration", "google.protobuf.Empty",
   "google.protobuf.Any", "google.protobuf.Struct", "google.protobuf.Value",
   "google.protobuf.ListValue", "google.protobuf.NullValue"]

/-- Whether the reference is to a type that comes with the schema language. -/
def isWellKnown (r : TypeRef) : Bool :=
  wellKnown.contains r.fullName

end TypeRef

/-- The type of a field that is no map, or of the values of a map. -/
inductive PlainType where
  | scalar (s : Scalar)
  | ref (r : TypeRef)
  deriving DecidableEq, Repr

namespace PlainType

/-- The type with a name. -/
def ofName (name : String) : PlainType :=
  match Scalar.ofText? name with
  | some s => scalar s
  | none => ref (.parse false name)

/-- A type as it is shown. -/
def text : PlainType → String
  | scalar s => s.text
  | ref r => r.fullName

end PlainType

/-- The type of a field. -/
inductive FieldType where
  | plain (t : PlainType)
  | map (key : Scalar) (value : PlainType)
  deriving DecidableEq, Repr

/-- A type as it is shown. -/
def FieldType.text : FieldType → String
  | plain t => t.text
  | map key value => "map<" ++ key.text ++ ", " ++ value.text ++ ">"

end ProtoRoutes
