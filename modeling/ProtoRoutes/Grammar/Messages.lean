import ProtoRoutes.Grammar.Enums

/-!
# ProtoRoutes.Grammar.Messages

Messages: fields, oneofs, reserved statements and nested types. A message takes one level of the
room that is left for nesting, and hands the rest down to what is inside it.
-/

namespace ProtoRoutes.Grammar

/-! ### Fields -/

/-- The label that a token is. -/
def label? (t : Token) : Option Label :=
  match t.kind with
  | .keyword .optionalKw => some .optional
  | .keyword .requiredKw => some .required
  | .keyword .repeatedKw => some .repeated
  | _ => none

/-- The type of a field that is no map. -/
def plainType : Parser PlainType := do
  let name ← typeName
  pure (.ofName name)

/-- The type of a map. -/
def mapType : Parser FieldType := do
  let _ ← expectKeyword .mapKw
  let _ ← expectSign .langle
  let t ← peek
  let key ← plainType
  match key with
  | .scalar s =>
    if s.isMapKey then
      let _ ← expectSign .comma
      let value ← plainType
      let _ ← expectSign .rangle
      pure (.map s value)
    else fail (.defect t.pos (.mapKey t.text))
  | .ref _ => fail (.defect t.pos (.mapKey t.text))

/-- The type of a field with a label. A map is optional. -/
def fieldType (label : Label) : Parser FieldType := do
  let t ← peek
  let u ← peekSecond
  match t.kind with
  | .keyword .groupKw => fail (.unsupported .group t.pos.line)
  | _ =>
    if t.kind = .keyword .mapKw && u.isPunct .langle then
      if label = .optional then mapType else unexpected t .unlabelledMap
    else .plain <$> plainType

/-- A field number. -/
def fieldNumber (mode : Mode) : Parser Nat := do
  let t ← expectKind .number .fieldNumber
  match Number.integer? t.text.toList with
  | none => unexpected t .integerFieldNumber
  | some n =>
    if mode.strict && !(1 ≤ n && n ≤ maxFieldNumber) then
      fail (.defect t.pos (.fieldNumberRange n))
    else pure n

/-- The label of a field; without one a field is optional. The members of a oneof have none. -/
def fieldLabel (inOneof : Bool) : Parser Label := do
  let t ← peek
  match label? t with
  | none => pure .optional
  | some label =>
    if inOneof then unexpected t .unlabelledField
    else
      let _ ← advance
      pure label

/-- A field, as a member of a oneof if one is given. -/
def field (mode : Mode) (room : Nat) (oneof : Option String) : Parser Field := do
  let comments ← takeComments mode
  let label ← fieldLabel oneof.isSome
  let type ← fieldType label
  let name ← expectName .fieldName
  let _ ← expectSign .equals
  let number ← fieldNumber mode
  let options ← inlineOptions room
  let _ ← expectSign .semicolon
  let trailing ← takeTrailing mode
  pure ⟨name.text, type, number, label, options, comments ++ trailing, oneof⟩

/-! ### Oneofs -/

/-- A step of a oneof's body. -/
def oneofItem (mode : Mode) (room : Nat) (o : Oneof) (t : Token) : Parser Oneof :=
  match t.kind with
  | .keyword .optionKw => do
    let opt ← optionStatement mode room
    pure { o with options := o.options ++ [opt] }
  | .punct .semicolon => do
    let _ ← advance
    pure o
  | .eof => unexpected t (.oneofEnd o.name)
  | _ => do
    let f ← field mode room (some o.name)
    pure { o with fields := o.fields ++ [f] }

/-- A oneof. -/
def oneofGroup (mode : Mode) (room : Nat) : Parser Oneof := do
  let comments ← takeComments mode
  let _ ← expectKeyword .oneofKw
  let name ← expectName .oneofName
  let _ ← expectSign .lbrace
  let o ← untilBrace (oneofItem mode room) ⟨name.text, [], [], comments⟩
  let _ ← expectSign .rbrace
  let trailing ← takeTrailing mode
  pure { o with comments := o.comments ++ trailing }

/-! ### Declarations in a message -/

/-- A message whose body is being read, with the line of every name that is declared in it: fields,
oneofs and nested types share one scope. -/
structure Draft where
  message : Message
  declared : List (String × Nat)

/-- Declares a name in a message. -/
def Draft.declareName (mode : Mode) (line : Nat) (d : Draft) (name : String) : Parser Draft := do
  declare mode (d.declared.lookup name).isSome (.named name) line
  pure { d with declared := (name, line) :: d.declared }

/-- Declares a field in a message: its name, then its number. -/
def Draft.declareField (mode : Mode) (line : Nat) (d : Draft) (f : Field) : Parser Draft := do
  let d ← d.declareName mode line f.name
  declare mode (d.message.fields.any (·.number = f.number))
    (.fieldNumber f.number d.message.name) line
  pure { d with message := { d.message with fields := d.message.fields ++ [f] } }

/-- The error of the first field with a reserved name or number. -/
def reservedError? (d : Draft) : Option SchemaError :=
  d.message.fields.findSome? fun f =>
    let pos : Position := ⟨(d.declared.lookup f.name).getD 0, 0⟩
    if d.message.reservedNames.contains f.name then
      some (.defect pos (.reservedName f.name d.message.name))
    else if d.message.reservedRanges.any (·.has f.number) then
      some (.defect pos (.reservedNumber f.number d.message.name))
    else none

/-- In strict mode, a field with a reserved name or number is an error. -/
def checkReserved (mode : Mode) (d : Draft) : Parser Unit :=
  if mode.strict then
    match reservedError? d with
    | some e => fail e
    | none => pure ()
  else pure ()

/-! ### Messages -/

/-- A step of a message's body, where `nested` reads the messages inside it. -/
def messageItem (mode : Mode) (room : Nat) (nested : Parser Message) (d : Draft) (t : Token) :
    Parser Draft :=
  let line := t.pos.line
  match t.kind with
  | .keyword .messageKw => do
    let m ← nested
    let d ← d.declareName mode line m.name
    pure { d with message := { d.message with messages := d.message.messages ++ [m] } }
  | .keyword .enumKw => do
    let e ← enumeration mode room
    let d ← d.declareName mode line e.name
    pure { d with message := { d.message with enums := d.message.enums ++ [e] } }
  | .keyword .optionKw => do
    let o ← optionStatement mode room
    pure { d with message := { d.message with options := d.message.options ++ [o] } }
  | .keyword .oneofKw => do
    let o ← oneofGroup mode room
    let d ← d.declareName mode line o.name
    let d ← o.fields.foldlM (Draft.declareField mode line) d
    pure { d with message := { d.message with oneofs := d.message.oneofs ++ [o] } }
  | .keyword .reservedKw => do
    let r ← reserved mode maxFieldNumber
    pure { d with message := { d.message with
      reservedRanges := d.message.reservedRanges ++ r.ranges
      reservedNames := d.message.reservedNames ++ r.names } }
  | .keyword .extensionsKw => fail (.unsupported (.inMessage t.text d.message.name) line)
  | .keyword .extendKw => fail (.unsupported (.inMessage t.text d.message.name) line)
  | .punct .semicolon => do
    let _ ← advance
    pure d
  | .eof => unexpected t (.messageEnd d.message.name)
  | _ => do
    let f ← field mode room none
    d.declareField mode line f

/-- A message behind its name, where `nested` reads the messages inside it. -/
def messageBlock (mode : Mode) (room : Nat) (nested : Parser Message) (name : String)
    (comments : List Comment) : Parser Message := do
  let _ ← expectSign .lbrace
  let d ← untilBrace (messageItem mode room nested)
    ⟨⟨name, [], [], [], [], comments, [], [], []⟩, []⟩
  checkReserved mode d
  let _ ← expectSign .rbrace
  let trailing ← takeTrailing mode
  pure { d.message with comments := d.message.comments ++ trailing }

/-- A message where `room` levels of nesting are left, itself included. -/
def message (mode : Mode) : Nat → Parser Message
  | 0 => do
    let _ ← takeComments mode
    let _ ← expectKeyword .messageKw
    let name ← expectName .messageName
    fail (.defect name.pos (.tooDeep maxDepth))
  | room + 1 => do
    let comments ← takeComments mode
    let _ ← expectKeyword .messageKw
    let name ← expectName .messageName
    messageBlock mode room (message mode room) name.text comments

end ProtoRoutes.Grammar
