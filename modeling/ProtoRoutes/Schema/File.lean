import ProtoRoutes.Http.Rule
import ProtoRoutes.Schema.TypeRef

/-!
# ProtoRoutes.Schema.File

The tree of a schema file: services with their methods, messages with fields, oneofs and nested
types, and enums. Declarations keep the comments around them.
-/

namespace ProtoRoutes

/-- Where a comment stands: right in front of its declaration, behind it on the same line, or in
front of it with lines between. -/
inductive CommentKind where
  | leading | trailing | detached
  deriving DecidableEq, Repr

/-- A comment of a declaration. -/
structure Comment where
  kind : CommentKind
  text : String
  deriving DecidableEq, Repr

/-- The versions of the schema language. -/
inductive Version where
  | proto2 | proto3
  deriving DecidableEq, Repr

/-- A version as it is written. -/
def Version.text : Version → String
  | proto2 => "proto2"
  | proto3 => "proto3"

/-- The version with a name. -/
def Version.ofText? (text : String) : Option Version :=
  [Version.proto2, .proto3].find? (·.text = text)

/-- How an import passes on what it brings. -/
inductive ImportKind where
  | normal | exported | weak
  deriving DecidableEq, Repr

/-- An import of another file. -/
structure Import where
  kind : ImportKind
  path : String
  deriving DecidableEq, Repr

/-- How often a field may occur. -/
inductive Label where
  | optional | required | repeated
  deriving DecidableEq, Repr

/-- A field of a message. -/
structure Field where
  name : String
  type : FieldType
  number : Nat
  label : Label
  options : List SchemaOption
  comments : List Comment
  /-- The name of the oneof that the field is a member of. -/
  oneof : Option String

/-- A group of fields of which at most one is set. -/
structure Oneof where
  name : String
  fields : List Field
  options : List SchemaOption
  comments : List Comment

/-- A value of an enum. -/
structure EnumValue where
  name : String
  number : Int
  options : List SchemaOption
  comments : List Comment

/-- Reserved numbers, both ends included. -/
structure ReservedRange where
  first : Int
  last : Int
  deriving DecidableEq, Repr

/-- Whether a range has a number. -/
def ReservedRange.has (r : ReservedRange) (n : Int) : Bool :=
  r.first ≤ n && n ≤ r.last

/-- An enum. -/
structure Enumeration where
  name : String
  values : List EnumValue
  options : List SchemaOption
  comments : List Comment
  reservedRanges : List ReservedRange
  reservedNames : List String

/-- A message. Its fields include the members of its oneofs. -/
structure Message where
  name : String
  fields : List Field
  messages : List Message
  enums : List Enumeration
  options : List SchemaOption
  comments : List Comment
  oneofs : List Oneof
  reservedRanges : List ReservedRange
  reservedNames : List String

/-- The names of the fields of a message. -/
def Message.fieldNames (m : Message) : List String :=
  m.fields.map (·.name)

/-- A method of a service. -/
structure Method where
  name : String
  input : TypeRef
  output : TypeRef
  options : List SchemaOption
  comments : List Comment
  rule : Option HttpRule

/-- A service. -/
structure Service where
  name : String
  methods : List Method
  options : List SchemaOption
  comments : List Comment

/-- A schema file. -/
structure SchemaFile where
  version : Version
  package : Option String
  imports : List Import
  options : List SchemaOption
  services : List Service
  messages : List Message
  enums : List Enumeration

/-- The file without any content. -/
def SchemaFile.empty : SchemaFile :=
  ⟨.proto3, none, [], [], [], [], []⟩

/-- The paths that a file imports. -/
def SchemaFile.dependencies (f : SchemaFile) : List String :=
  f.imports.map (·.path)

end ProtoRoutes
