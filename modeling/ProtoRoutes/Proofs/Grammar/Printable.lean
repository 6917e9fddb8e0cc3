import ProtoRoutes.Proofs.Grammar.Printer

/-!
# ProtoRoutes.Proofs.Grammar.Printable

The schema files that can be written down: names are names of the language, numbers have a length
that is read back, and what stands inside each other does so no deeper than the grammar allows. The
number of levels that are left for messages and message literals is counted down as in the grammar,
as `room`.

Comments and numbers as option values are left out, since the printer does not write them.
-/

namespace ProtoRoutes

open Source (isIdent decimal)

/-! ### Names and numbers -/

/-- A text that is these identifiers with dots between them. -/
structure IsDotted (first : String) (others : List String) (text : String) : Prop where
  text_eq : text = ".".intercalate (first :: others)
  ident : ∀ s ∈ first :: others, isIdent s = true

/-- Identifiers with dots between them. -/
def IsFullIdent (text : String) : Prop :=
  ∃ first others, IsDotted first others text

/-- A part of an option's name. -/
inductive IsOptionPart : String → Prop where
  | name {s : String} (hs : isIdent s = true) : IsOptionPart s
  | extension {s : String} (hs : IsFullIdent s) : IsOptionPart ("(" ++ s ++ ")")
  | rooted {s : String} (hs : IsFullIdent s) : IsOptionPart ("(." ++ s ++ ")")

/-- The name of an option. -/
inductive IsOptionName : String → Prop where
  | part {p : String} (hp : IsOptionPart p) : IsOptionName p
  | member {s p : String} (hs : IsOptionName s) (hp : IsOptionPart p) : IsOptionName (s ++ "." ++ p)
  | index {s i : String} (hs : IsOptionName s) (hi : IsFullIdent i) :
      IsOptionName (s ++ "[" ++ i ++ "]")

/-- The key of a field in a message literal. -/
inductive IsLiteralKey : String → Prop where
  | name {s : String} (hs : isIdent s = true) : IsLiteralKey s
  | extension {s : String} (hs : IsFullIdent s) : IsLiteralKey ("[" ++ s ++ "]")

/-- A number that is not too long to be read. -/
def IsShort (n : Nat) : Prop :=
  (decimal n).length ≤ Number.maxDecimalDigits

instance (n : Nat) : Decidable (IsShort n) :=
  inferInstanceAs (Decidable ((decimal n).length ≤ Number.maxDecimalDigits))

/-! ### Options -/

/-- A value with at most `room` message literals inside each other. -/
inductive Value.Printable : Nat → Value → Prop where
  | string (room : Nat) (text : String) : Printable room (.string text)
  | boolean (room : Nat) (b : Bool) : Printable room (.boolean b)
  | identifier {room : Nat} {first : String} {others : List String} {name : String}
      (hname : IsDotted first others name) (htrue : first ≠ "true") (hfalse : first ≠ "false") :
      Printable room (.identifier name)
  | list {room : Nat} {items : List Value} (hitems : ∀ v ∈ items, Printable room v) :
      Printable room (.list items)
  | message {room : Nat} {fields : List (String × Value)} (hkeys : ∀ f ∈ fields, IsLiteralKey f.1)
      (hdistinct : (fields.map Prod.fst).Nodup) (hvalues : ∀ f ∈ fields, Printable room f.2) :
      Printable (room + 1) (.message fields)

/-- An option. -/
structure SchemaOption.Printable (room : Nat) (o : SchemaOption) : Prop where
  name : IsOptionName o.name
  value : o.value.Printable room

/-! ### HTTP rules -/

/-- A standard verb, or a custom one in upper case. -/
def HttpMethod.Printable (m : HttpMethod) : Prop :=
  m ∈ HttpMethod.standard.map Prod.snd ∨ (m.verb ≠ "" ∧ m = .ofKind m.verb)

/-- A rule with such verbs. -/
structure HttpRule.Printable (r : HttpRule) : Prop where
  primary : r.primary.method.Printable
  additional : ∀ b ∈ r.additional, b.method.Printable

/-! ### Types -/

/-- A reference to a type by identifiers with dots between them. -/
def TypeRef.Printable (r : TypeRef) : Prop :=
  ∃ name, IsFullIdent name ∧ r = .parse r.stream name

/-- A type that is no map. -/
def PlainType.Printable : PlainType → Prop
  | .scalar _ => True
  | .ref r => r.Printable ∧ r.stream = false

/-- The type of a field with a label. -/
def FieldType.Printable (label : Label) : FieldType → Prop
  | .plain t => t.Printable
  | .map key value => key.isMapKey = true ∧ value.Printable ∧ label = .optional

/-! ### Services -/

/-- A method. Without an HTTP rule, none of its options is one. -/
structure Method.Printable (m : Method) : Prop where
  name : isIdent m.name = true
  input : m.input.Printable
  output : m.output.Printable
  options : ∀ o ∈ m.options, o.Printable Grammar.maxDepth
  comments : m.comments = []
  rule : ∀ r, m.rule = some r → r.Printable
  noRule : m.rule = none → ∀ o ∈ m.options, HttpRule.isHttpOption o = true →
    ∀ r, HttpRule.decode o.value ≠ .ok r

/-- A service. -/
structure Service.Printable (s : Service) : Prop where
  name : isIdent s.name = true
  methods : ∀ m ∈ s.methods, m.Printable
  options : ∀ o ∈ s.options, o.Printable Grammar.maxDepth
  comments : s.comments = []

/-! ### Enums -/

/-- A range that is not empty. -/
structure ReservedRange.Printable (r : ReservedRange) : Prop where
  first : IsShort r.first.natAbs
  last : IsShort r.last.natAbs
  nonempty : r.first ≤ r.last

/-- A value of an enum. Two words that start other statements cannot be its name. -/
structure EnumValue.Printable (room : Nat) (v : EnumValue) : Prop where
  name : isIdent v.name = true
  notOption : v.name ≠ "option"
  notReserved : v.name ≠ "reserved"
  number : IsShort v.number.natAbs
  options : ∀ o ∈ v.options, o.Printable room
  comments : v.comments = []

/-- An enum. -/
structure Enumeration.Printable (room : Nat) (e : Enumeration) : Prop where
  name : isIdent e.name = true
  values : ∀ v ∈ e.values, v.Printable room
  options : ∀ o ∈ e.options, o.Printable room
  comments : e.comments = []
  reservedRanges : ∀ r ∈ e.reservedRanges, r.Printable

/-! ### Messages -/

/-- A field. -/
structure Field.Printable (room : Nat) (f : Field) : Prop where
  name : isIdent f.name = true
  type : f.type.Printable f.label
  number : IsShort f.number
  options : ∀ o ∈ f.options, o.Printable room
  comments : f.comments = []
  label : f.oneof.isSome → f.label = .optional

/-- A oneof. -/
structure Oneof.Printable (room : Nat) (o : Oneof) : Prop where
  name : isIdent o.name = true
  fields : ∀ f ∈ o.fields, f.Printable room
  options : ∀ p ∈ o.options, p.Printable room
  comments : o.comments = []

/-- The fields of a message are those that belong to no oneof, and between them the fields of the
oneofs, one oneof after the other. -/
inductive Woven : List Field → List Oneof → Prop where
  | nil : Woven [] []
  | field {f : Field} {fields : List Field} {oneofs : List Oneof} (hf : f.oneof = none)
      (hrest : Woven fields oneofs) : Woven (f :: fields) oneofs
  | group {o : Oneof} {fields : List Field} {oneofs : List Oneof}
      (ho : ∀ f ∈ o.fields, f.oneof = some o.name) (hrest : Woven fields oneofs) :
      Woven (o.fields ++ fields) (o :: oneofs)

/-- A message that takes at most `room` levels, itself included. -/
inductive Message.Printable : Nat → Message → Prop where
  | mk {room : Nat} {m : Message} (hname : isIdent m.name = true)
      (hfields : ∀ f ∈ m.fields, f.Printable room) (hmessages : ∀ n ∈ m.messages, Printable room n)
      (henums : ∀ e ∈ m.enums, e.Printable room) (hoptions : ∀ o ∈ m.options, o.Printable room)
      (hcomments : m.comments = []) (honeofs : ∀ o ∈ m.oneofs, o.Printable room)
      (hwoven : Woven m.fields m.oneofs) (hranges : ∀ r ∈ m.reservedRanges, r.Printable) :
      Printable (room + 1) m

/-! ### Files -/

/-- A file. -/
structure SchemaFile.Printable (f : SchemaFile) : Prop where
  package : ∀ name, f.package = some name → IsFullIdent name
  options : ∀ o ∈ f.options, o.Printable Grammar.maxDepth
  services : ∀ s ∈ f.services, s.Printable
  messages : ∀ m ∈ f.messages, m.Printable Grammar.maxDepth
  enums : ∀ e ∈ f.enums, e.Printable Grammar.maxDepth

end ProtoRoutes
