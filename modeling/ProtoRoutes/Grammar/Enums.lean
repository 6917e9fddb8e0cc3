import ProtoRoutes.Grammar.Services

/-!
# ProtoRoutes.Grammar.Enums

Enums and their values, and the statements that reserve numbers or names.
-/

namespace ProtoRoutes.Grammar

/-- The greatest number that the word `max` stands for in an enum. -/
def maxEnumNumber : Int := 2147483647

/-- The greatest field number. -/
def maxFieldNumber : Nat := 536870911

/-- What a reserved statement reserves. -/
structure Reservation where
  ranges : List ReservedRange
  names : List String

/-- The end of a range that starts with a number: behind `to`, else the number itself. -/
def rangeEnd (limit first : Int) : Parser Int := do
  let t ← peek
  if t.isWord "to" then
    let _ ← advance
    let u ← peek
    if u.isWord "max" then
      let _ ← advance
      pure limit
    else signedInteger
  else pure first

/-- A range of reserved numbers, where `max` stands for the limit. -/
def reservedRange (limit : Int) : Parser ReservedRange := do
  let t ← peek
  let first ← signedInteger
  let last ← rangeEnd limit first
  if last < first then fail (.defect t.pos (.emptyRange first last)) else pure ⟨first, last⟩

/-- A reserved statement: names or ranges. -/
def reserved (mode : Mode) (limit : Int) : Parser Reservation := do
  let _ ← expectKeyword .reservedKw
  let t ← peek
  let reservation ←
    if t.kind = .string then
      let names ← commaSeparated stringValue
      pure (Reservation.mk [] names)
    else
      let ranges ← commaSeparated (reservedRange limit)
      pure (Reservation.mk ranges [])
  let _ ← expectSign .semicolon
  let _ ← takeTrailing mode
  pure reservation

/-- A value of an enum. -/
def enumValue (mode : Mode) (room : Nat) : Parser EnumValue := do
  let comments ← takeComments mode
  let name ← expectName .enumValueName
  let _ ← expectSign .equals
  let number ← signedInteger
  let options ← inlineOptions room
  let _ ← expectSign .semicolon
  let trailing ← takeTrailing mode
  pure ⟨name.text, number, options, comments ++ trailing⟩

/-- A step of an enum's body. -/
def enumItem (mode : Mode) (room : Nat) (e : Enumeration) (t : Token) : Parser Enumeration :=
  match t.kind with
  | .keyword .optionKw => do
    let o ← optionStatement mode room
    pure { e with options := e.options ++ [o] }
  | .keyword .reservedKw => do
    let r ← reserved mode maxEnumNumber
    pure { e with
      reservedRanges := e.reservedRanges ++ r.ranges, reservedNames := e.reservedNames ++ r.names }
  | .punct .semicolon => do
    let _ ← advance
    pure e
  | .eof => unexpected t (.enumEnd e.name)
  | _ => do
    let v ← enumValue mode room
    declare mode (e.values.any (·.name = v.name)) (.member e.name v.name) t.pos.line
    pure { e with values := e.values ++ [v] }

/-- An enum. -/
def enumeration (mode : Mode) (room : Nat) : Parser Enumeration := do
  let comments ← takeComments mode
  let _ ← expectKeyword .enumKw
  let name ← expectName .enumName
  let _ ← expectSign .lbrace
  let e ← untilBrace (enumItem mode room) ⟨name.text, [], [], comments, [], []⟩
  let _ ← expectSign .rbrace
  let trailing ← takeTrailing mode
  pure { e with comments := e.comments ++ trailing }

end ProtoRoutes.Grammar
