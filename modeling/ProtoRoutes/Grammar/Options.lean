import ProtoRoutes.Grammar.Names

/-!
# ProtoRoutes.Grammar.Options

Options and their values. Values nest: the number of message literals that may still be opened is
handed down as `room`, and opening one more than that is an error. List literals take no room.
-/

namespace ProtoRoutes.Grammar

/-- How many messages and message literals may stand inside each other. -/
def maxDepth : Nat := 64

/-! ### Values -/

/-- The number that a token stands for. -/
def numberOf (t : Token) : Parser Binary64 :=
  match Number.real t.text.toList with
  | .ok x => pure x
  | .error fault => breakDown (.number fault)

/-- The number behind a sign; here `inf` and `nan` are numbers. -/
def unsignedNumber : Parser Binary64 := do
  let t ← peek
  if t.kind = .number then
    let _ ← advance
    numberOf t
  else if t.isWord "inf" then
    let _ ← advance
    pure (.infinite false)
  else if t.isWord "nan" then
    let _ ← advance
    pure .nan
  else unexpected t .numberAfterSign

/-- The key of a field in a message literal: a name, or a dotted name in brackets. -/
def literalKey : Parser String := do
  if ← accept .lbracket then
    let name ← fullIdent
    let _ ← expectSign .rbracket
    pure ("[" ++ name ++ "]")
  else
    let t ← expectName .literalFieldName
    pure t.text

/-- The value of a field in a message literal. The colon may be left out in front of a message
literal. -/
def literalFieldValue (value : Parser Value) (key : String) : Parser Value := do
  if ← accept .colon then value
  else
    let t ← peek
    if t.isPunct .lbrace then value else unexpected t (.colonAfter key)

/-- What may stand between two fields of a message literal: a comma or a semicolon. -/
def literalSeparator : Parser Unit := do
  if ← accept .comma then pure ()
  else
    let _ ← accept .semicolon

/-- The fields of a message literal, up to its closing brace. -/
def literalFields (value : Parser Value) : Parser (List (String × Value)) :=
  untilBrace (fun fields t => do
    if t.kind = .eof then unexpected t .literalEnd
    let key ← literalKey
    let v ← literalFieldValue value key
    literalSeparator
    pure (Value.addField fields key v)) []

/-- A message literal behind its opening brace, which is given. -/
def messageLiteral (value : Nat → Parser Value) (brace : Token) : Nat → Parser Value
  | 0 => fail (.defect brace.pos (.tooDeep maxDepth))
  | room + 1 => do
    let fields ← literalFields (value room)
    let _ ← expectSign .rbrace
    pure (.message fields)

/-- A list literal behind its opening bracket. -/
def listLiteral (value : Parser Value) : Parser Value := do
  let t ← peek
  let items ← if t.isPunct .rbracket then pure [] else commaSeparated value
  let _ ← expectSign .rbracket
  pure (.list items)

/-- A value, where `value` reads the values inside it. -/
def valueStep (value : Nat → Parser Value) (room : Nat) : Parser Value := do
  let t ← peek
  match t.kind with
  | .string => .string <$> stringValue
  | .punct .minus =>
    let _ ← advance
    let x ← unsignedNumber
    pure (.number x.neg)
  | .punct .plus =>
    let _ ← advance
    let x ← unsignedNumber
    pure (.number x)
  | .number =>
    let _ ← advance
    let x ← numberOf t
    pure (.number x)
  | .punct .lbrace =>
    let _ ← advance
    messageLiteral value t room
  | .punct .lbracket =>
    let _ ← advance
    listLiteral (value room)
  | _ =>
    if t.isWord "true" || t.isWord "false" then
      let _ ← advance
      pure (.boolean (t.text = "true"))
    else if t.isName then .identifier <$> fullIdent
    else unexpected t .optionValue

/-- A value in which literals stand inside each other less than `bound` times. -/
def valueWithin : Nat → Nat → Parser Value
  | 0, _ => breakDown .stalled
  | bound + 1, room => valueStep (valueWithin bound) room

/-- A value with room for message literals. Every literal consumes a token, so there cannot be more
of them inside each other than there are tokens. -/
def optionValue (room : Nat) : Parser Value := fun c =>
  valueWithin (c.rest.length + 1) room c

/-! ### Options -/

/-- A part of an option's name: a name, or the name of an extension in parentheses. -/
def optionNamePart : Parser String := do
  if ← accept .lparen then
    let rooted ← accept .dot
    let name ← fullIdent
    let _ ← expectSign .rparen
    pure ("(" ++ (if rooted then "." else "") ++ name ++ ")")
  else
    let t ← expectName .optionName
    pure t.text

/-- A further part of an option's name: behind a dot, or a dotted name in brackets. -/
def optionNameSuffix : Parser String := do
  if ← accept .dot then
    let part ← optionNamePart
    pure ("." ++ part)
  else
    let _ ← expectSign .lbracket
    let index ← fullIdent
    let _ ← expectSign .rbracket
    pure ("[" ++ index ++ "]")

/-- The name of an option. -/
def optionName : Parser String := do
  let first ← optionNamePart
  let others ← many (fun t => t.isPunct .dot || t.isPunct .lbracket) optionNameSuffix
  pure ("".intercalate (first :: others))

/-- A name, an equals sign and a value. -/
def optionAssignment (room : Nat) : Parser SchemaOption := do
  let name ← optionName
  let _ ← expectSign .equals
  let value ← optionValue room
  pure ⟨name, value⟩

/-- An option statement. A comment behind it belongs to nothing. -/
def optionStatement (mode : Mode) (room : Nat) : Parser SchemaOption := do
  let _ ← expectKeyword .optionKw
  let o ← optionAssignment room
  let _ ← expectSign .semicolon
  let _ ← takeTrailing mode
  pure o

/-- The options of a field or an enum value, in brackets, if there are any. -/
def inlineOptions (room : Nat) : Parser (List SchemaOption) := do
  if ← accept .lbracket then
    let options ← commaSeparated (optionAssignment room)
    let _ ← expectSign .rbracket
    pure options
  else pure []

end ProtoRoutes.Grammar
