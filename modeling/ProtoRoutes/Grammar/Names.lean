import ProtoRoutes.Grammar.Cursor

/-!
# ProtoRoutes.Grammar.Names

Names, strings and integers: the smallest rules of the grammar.
-/

namespace ProtoRoutes.Grammar

/-- Names joined by dots. -/
def fullIdent : Parser String := do
  let first ← expectName .identifier
  let others ← many (·.isPunct .dot) do
    let _ ← advance
    let t ← expectName .identifierAfterDot
    pure t.text
  pure (".".intercalate (first.text :: others))

/-- The name of a type: names joined by dots, with a dot in front of them if there is one. -/
def typeName : Parser String := do
  let rooted ← accept .dot
  let name ← fullIdent
  pure (if rooted then "." ++ name else name)

/-- One or more string literals, which are joined. -/
def stringValue : Parser String := do
  let first ← expectKind .string .stringLiteral
  let others ← many (·.kind = .string) do
    let t ← advance
    pure t.text
  pure ("".intercalate (first.text :: others))

/-- An integer with an optional minus sign. -/
def signedInteger : Parser Int := do
  let negative ← accept .minus
  let t ← expectKind .number .integer
  match Number.integer? t.text.toList with
  | some n => pure (if negative then -(n : Int) else n)
  | none => unexpected t .integer

end ProtoRoutes.Grammar
