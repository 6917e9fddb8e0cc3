import ProtoRoutes.Grammar.Options

/-!
# ProtoRoutes.Grammar.Services

Services and their methods. The HTTP rule of a method is taken out of its options when it can be
decoded.
-/

namespace ProtoRoutes.Grammar

/-- In strict mode, a second definition of the same thing is an error. -/
def declare (mode : Mode) (taken : Bool) (what : Definition) (line : Nat) : Parser Unit :=
  if mode.strict && taken then fail (.duplicate what line) else pure ()

/-- The options of a method with its HTTP rule set apart. -/
structure RuleSplit where
  rule : Option HttpRule
  options : List SchemaOption
  /-- What is wrong with the HTTP rules in front of the one that was taken. -/
  errors : List RuleError

/-- Takes the first HTTP rule that can be decoded out of a list of options. -/
def splitRule : List SchemaOption → RuleSplit
  | [] => ⟨none, [], []⟩
  | o :: rest =>
    if HttpRule.isHttpOption o then
      match HttpRule.decode o.value with
      | .ok rule => ⟨some rule, rest, []⟩
      | .error e =>
        let split := splitRule rest
        ⟨split.rule, o :: split.options, e :: split.errors⟩
    else
      let split := splitRule rest
      ⟨split.rule, o :: split.options, split.errors⟩

/-- The type of a method's input or output, in parentheses. The word `stream` in front of a type
makes it a stream; alone it is a type. -/
def methodType : Parser TypeRef := do
  let _ ← expectSign .lparen
  let t ← peek
  let u ← peekSecond
  let stream := t.kind = .keyword .streamKw && !u.isPunct .rparen
  if stream then
    let _ ← advance
  let name ← typeName
  let _ ← expectSign .rparen
  pure (.parse stream name)

/-- A step of a method's body. -/
def methodItem (mode : Mode) (options : List SchemaOption) (t : Token) :
    Parser (List SchemaOption) :=
  match t.kind with
  | .keyword .optionKw => do
    let o ← optionStatement mode maxDepth
    pure (options ++ [o])
  | .punct .semicolon => do
    let _ ← advance
    pure options
  | _ => unexpected t .methodItem

/-- The options of a method: a block, or a semicolon for none. -/
def methodBody (mode : Mode) : Parser (List SchemaOption) := do
  if ← accept .lbrace then
    let options ← untilBrace (methodItem mode) []
    let _ ← expectSign .rbrace
    let _ ← accept .semicolon
    pure options
  else
    let _ ← expectKind (.punct .semicolon) .methodEnd
    pure []

/-- A method of a service. -/
def method (mode : Mode) : Parser Method := do
  let comments ← takeComments mode
  let _ ← expectKeyword .rpcKw
  let name ← expectName .methodName
  let input ← methodType
  let _ ← expectKeyword .returnsKw
  let output ← methodType
  let options ← methodBody mode
  let split := splitRule options
  defer name.text split.errors
  let trailing ← takeTrailing mode
  pure ⟨name.text, input, output, split.options, comments ++ trailing, split.rule⟩

/-- A step of a service's body. -/
def serviceItem (mode : Mode) (s : Service) (t : Token) : Parser Service :=
  match t.kind with
  | .keyword .rpcKw => do
    let m ← method mode
    declare mode (s.methods.any (·.name = m.name)) (.member s.name m.name) t.pos.line
    pure { s with methods := s.methods ++ [m] }
  | .keyword .optionKw => do
    let o ← optionStatement mode maxDepth
    pure { s with options := s.options ++ [o] }
  | .punct .semicolon => do
    let _ ← advance
    pure s
  | _ => unexpected t .serviceItem

/-- A service. -/
def service (mode : Mode) : Parser Service := do
  let comments ← takeComments mode
  let _ ← expectKeyword .serviceKw
  let name ← expectName .serviceName
  let _ ← expectSign .lbrace
  let s ← untilBrace (serviceItem mode) ⟨name.text, [], [], comments⟩
  let _ ← expectSign .rbrace
  let trailing ← takeTrailing mode
  pure { s with comments := s.comments ++ trailing }

end ProtoRoutes.Grammar
