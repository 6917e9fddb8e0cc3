import ProtoRoutes.Grammar.Files

/-!
# ProtoRoutes.Proofs.Grammar.DepthCounter

The grammar with a **depth counter**. The rules that read messages and values hand down the room
that is left for nesting. Here the same rules keep a counter instead: it is raised when a message or
a message literal is opened, lowered when that is closed, and opening one that takes it past
`maxDepth` is an error.

The counter knows nothing of where a rule stands. What it should be is known from the outside: the
rules are told which blocks enclose them, and of these the messages and the message literals count
(`levels`). Whenever a statement, a declaration or a value begins or ends, and whenever a level is
opened, a `Mark` is made of the enclosing blocks and of the counter at that moment.

Rules that open nothing are taken over as they are (`Counted.plain`); the others have the names of
those that they count for, and the blocks around them in place of the room. `tally` reads a text in
this way.
-/

namespace ProtoRoutes.Grammar

/-! ### Blocks and marks -/

/-- What can enclose a statement, a declaration or a value. -/
inductive Block where
  | message
  | literal
  | list
  | enumeration
  | oneof
  | service
  | method
  deriving DecidableEq, Repr

/-- Whether a block is a level of nesting. -/
def Block.counts : Block → Bool
  | message | literal => true
  | _ => false

/-- How many levels of nesting there are among blocks. -/
def levels (blocks : List Block) : Nat :=
  blocks.countP Block.counts

theorem levels_cons {b : Block} (hb : b.counts = true) (blocks : List Block) :
    levels (b :: blocks) = levels blocks + 1 :=
  List.countP_cons_of_pos hb

theorem levels_cons_of_not {b : Block} (hb : b.counts = false) (blocks : List Block) :
    levels (b :: blocks) = levels blocks :=
  List.countP_cons_of_neg (by simp [hb])

/-- What begins and ends. -/
inductive Item where
  | statement
  | declaration
  | value
  deriving DecidableEq, Repr

/-- When a mark is made. -/
inductive Moment where
  | begins (what : Item)
  | ends (what : Item)
  /-- A level is opened, at a token. -/
  | opens (t : Token)
  deriving DecidableEq, Repr

/-- A moment of a run, the blocks that enclose it from the innermost one on, and the counter. -/
structure Mark where
  moment : Moment
  blocks : List Block
  depth : Int
  deriving DecidableEq, Repr

/-- A place in a token stream with the depth counter, and the marks that were made so far. -/
structure Meter where
  cursor : Cursor
  depth : Int
  marks : List Mark

/-- A rule that keeps the depth counter. -/
abbrev Counted := EStateM Failure Meter

namespace Counted

variable {α β σ : Type}

theorem bind_run (p : Counted α) (f : α → Counted β) (m : Meter) :
    (p >>= f) m =
      match p m with
      | .ok a n => f a n
      | .error e n => .error e n := by
  show EStateM.bind p f m = _
  unfold EStateM.bind
  cases p m <;> rfl

/-- A rule that does not touch the counter. -/
def plain (p : Parser α) : Counted α := fun m =>
  match p m.cursor with
  | .ok a c => .ok a { m with cursor := c }
  | .error e c => .error e { m with cursor := c }

/-- Makes a mark. -/
def record (moment : Moment) (blocks : List Block) : Counted Unit := fun m =>
  .ok () { m with marks := m.marks ++ [⟨moment, blocks, m.depth⟩] }

/-- Marks where something begins, and where it ends if it does. -/
def item (what : Item) (blocks : List Block) (p : Counted α) : Counted α := do
  record (.begins what) blocks
  let a ← p
  record (.ends what) blocks
  pure a

/-- Raises the counter at the token that opens the first of some blocks. -/
def enter (blocks : List Block) (t : Token) : Counted Unit := fun m =>
  let raised : Meter := ⟨m.cursor, m.depth + 1, m.marks ++ [⟨.opens t, blocks, m.depth + 1⟩]⟩
  if (maxDepth : Int) < raised.depth
    then .error (.report (.defect t.pos (.tooDeep maxDepth))) raised
  else .ok () raised

/-- Lowers the counter. -/
def leave : Counted Unit := fun m =>
  .ok () { m with depth := m.depth - 1 }

/-! ### Loops -/

def iterateFor (more : Token → Bool) (step : σ → Token → Counted σ) : Nat → σ → Counted σ
  | 0, _ => plain (breakDown .stalled)
  | bound + 1, s => do
    let t ← plain peek
    if more t then
      let s' ← step s t
      iterateFor more step bound s'
    else pure s

def iterate (more : Token → Bool) (step : σ → Token → Counted σ) (s : σ) : Counted σ := fun m =>
  iterateFor more step (m.cursor.rest.length + 1) s m

def many (more : Token → Bool) (p : Counted α) : Counted (List α) :=
  iterate more (fun items _ => do
    let a ← p
    pure (items ++ [a])) []

def commaSeparated (p : Counted α) : Counted (List α) := do
  let first ← p
  let others ← many (·.isPunct .comma) do
    let _ ← plain advance
    p
  pure (first :: others)

def untilBrace (step : σ → Token → Counted σ) (s : σ) : Counted σ :=
  iterate (fun t => !t.isPunct .rbrace) step s

/-! ### Values and options -/

def literalFieldValue (value : Counted Value) (key : String) : Counted Value := do
  if ← plain (accept .colon) then value
  else
    let t ← plain peek
    if t.isPunct .lbrace then value else plain (unexpected t (.colonAfter key))

def literalFields (value : Counted Value) : Counted (List (String × Value)) :=
  untilBrace (fun fields t => do
    if t.kind = .eof then plain (unexpected t .literalEnd)
    let key ← plain literalKey
    let v ← literalFieldValue value key
    plain literalSeparator
    pure (Value.addField fields key v)) []

/-- A message literal behind its opening brace, at which the counter is raised. -/
def messageLiteral (value : List Block → Counted Value) (brace : Token) (blocks : List Block) :
    Counted Value := do
  enter (.literal :: blocks) brace
  let fields ← literalFields (value (.literal :: blocks))
  let _ ← plain (expectSign .rbrace)
  leave
  pure (.message fields)

def listLiteral (value : Counted Value) : Counted Value := do
  let t ← plain peek
  let items ← if t.isPunct .rbracket then pure [] else commaSeparated value
  let _ ← plain (expectSign .rbracket)
  pure (.list items)

def valueStep (value : List Block → Counted Value) (blocks : List Block) : Counted Value := do
  let t ← plain peek
  match t.kind with
  | .string => .string <$> plain stringValue
  | .punct .minus =>
    let _ ← plain advance
    let x ← plain unsignedNumber
    pure (.number x.neg)
  | .punct .plus =>
    let _ ← plain advance
    let x ← plain unsignedNumber
    pure (.number x)
  | .number =>
    let _ ← plain advance
    let x ← plain (numberOf t)
    pure (.number x)
  | .punct .lbrace =>
    let _ ← plain advance
    messageLiteral value t blocks
  | .punct .lbracket =>
    let _ ← plain advance
    listLiteral (value (.list :: blocks))
  | _ =>
    if t.isWord "true" || t.isWord "false" then
      let _ ← plain advance
      pure (.boolean (t.text = "true"))
    else if t.isName then .identifier <$> plain fullIdent
    else plain (unexpected t .optionValue)

def valueWithin : Nat → List Block → Counted Value
  | 0, _ => plain (breakDown .stalled)
  | bound + 1, blocks => item .value blocks (valueStep (valueWithin bound) blocks)

def optionValue (blocks : List Block) : Counted Value := fun m =>
  valueWithin (m.cursor.rest.length + 1) blocks m

def optionAssignment (blocks : List Block) : Counted SchemaOption := do
  let name ← plain optionName
  let _ ← plain (expectSign .equals)
  let value ← optionValue blocks
  pure ⟨name, value⟩

def optionStatement (mode : Mode) (blocks : List Block) : Counted SchemaOption :=
  item .statement blocks do
    let _ ← plain (expectKeyword .optionKw)
    let o ← optionAssignment blocks
    let _ ← plain (expectSign .semicolon)
    let _ ← plain (takeTrailing mode)
    pure o

/-- A semicolon alone. -/
def emptyStatement (blocks : List Block) : Counted Token :=
  item .statement blocks (plain advance)

def inlineOptions (blocks : List Block) : Counted (List SchemaOption) := do
  if ← plain (accept .lbracket) then
    let options ← commaSeparated (optionAssignment blocks)
    let _ ← plain (expectSign .rbracket)
    pure options
  else pure []

/-! ### Services -/

def methodItem (mode : Mode) (blocks : List Block) (options : List SchemaOption) (t : Token) :
    Counted (List SchemaOption) :=
  match t.kind with
  | .keyword .optionKw => do
    let o ← optionStatement mode blocks
    pure (options ++ [o])
  | .punct .semicolon => do
    let _ ← emptyStatement blocks
    pure options
  | _ => plain (unexpected t .methodItem)

def methodBody (mode : Mode) (blocks : List Block) : Counted (List SchemaOption) := do
  if ← plain (accept .lbrace) then
    let options ← untilBrace (methodItem mode (.method :: blocks)) []
    let _ ← plain (expectSign .rbrace)
    let _ ← plain (accept .semicolon)
    pure options
  else
    let _ ← plain (expectKind (.punct .semicolon) .methodEnd)
    pure []

def method (mode : Mode) (blocks : List Block) : Counted Method :=
  item .declaration blocks do
    let comments ← plain (takeComments mode)
    let _ ← plain (expectKeyword .rpcKw)
    let name ← plain (expectName .methodName)
    let input ← plain methodType
    let _ ← plain (expectKeyword .returnsKw)
    let output ← plain methodType
    let options ← methodBody mode blocks
    let split := splitRule options
    plain (defer name.text split.errors)
    let trailing ← plain (takeTrailing mode)
    pure ⟨name.text, input, output, split.options, comments ++ trailing, split.rule⟩

def serviceItem (mode : Mode) (blocks : List Block) (s : Service) (t : Token) : Counted Service :=
  match t.kind with
  | .keyword .rpcKw => do
    let m ← method mode blocks
    plain (declare mode (s.methods.any (·.name = m.name)) (.member s.name m.name) t.pos.line)
    pure { s with methods := s.methods ++ [m] }
  | .keyword .optionKw => do
    let o ← optionStatement mode blocks
    pure { s with options := s.options ++ [o] }
  | .punct .semicolon => do
    let _ ← emptyStatement blocks
    pure s
  | _ => plain (unexpected t .serviceItem)

def service (mode : Mode) (blocks : List Block) : Counted Service :=
  item .declaration blocks do
    let comments ← plain (takeComments mode)
    let _ ← plain (expectKeyword .serviceKw)
    let name ← plain (expectName .serviceName)
    let _ ← plain (expectSign .lbrace)
    let s ← untilBrace (serviceItem mode (.service :: blocks)) ⟨name.text, [], [], comments⟩
    let _ ← plain (expectSign .rbrace)
    let trailing ← plain (takeTrailing mode)
    pure { s with comments := s.comments ++ trailing }

/-! ### Enums -/

def enumValue (mode : Mode) (blocks : List Block) : Counted EnumValue :=
  item .declaration blocks do
    let comments ← plain (takeComments mode)
    let name ← plain (expectName .enumValueName)
    let _ ← plain (expectSign .equals)
    let number ← plain signedInteger
    let options ← inlineOptions blocks
    let _ ← plain (expectSign .semicolon)
    let trailing ← plain (takeTrailing mode)
    pure ⟨name.text, number, options, comments ++ trailing⟩

def enumItem (mode : Mode) (blocks : List Block) (e : Enumeration) (t : Token) :
    Counted Enumeration :=
  match t.kind with
  | .keyword .optionKw => do
    let o ← optionStatement mode blocks
    pure { e with options := e.options ++ [o] }
  | .keyword .reservedKw => do
    let r ← item .statement blocks (plain (reserved mode maxEnumNumber))
    pure { e with
      reservedRanges := e.reservedRanges ++ r.ranges, reservedNames := e.reservedNames ++ r.names }
  | .punct .semicolon => do
    let _ ← emptyStatement blocks
    pure e
  | .eof => plain (unexpected t (.enumEnd e.name))
  | _ => do
    let v ← enumValue mode blocks
    plain (declare mode (e.values.any (·.name = v.name)) (.member e.name v.name) t.pos.line)
    pure { e with values := e.values ++ [v] }

def enumeration (mode : Mode) (blocks : List Block) : Counted Enumeration :=
  item .declaration blocks do
    let comments ← plain (takeComments mode)
    let _ ← plain (expectKeyword .enumKw)
    let name ← plain (expectName .enumName)
    let _ ← plain (expectSign .lbrace)
    let e ← untilBrace (enumItem mode (.enumeration :: blocks))
        ⟨name.text, [], [], comments, [], []⟩
    let _ ← plain (expectSign .rbrace)
    let trailing ← plain (takeTrailing mode)
    pure { e with comments := e.comments ++ trailing }

/-! ### Messages -/

def field (mode : Mode) (blocks : List Block) (oneof : Option String) : Counted Field :=
  item .declaration blocks do
    let comments ← plain (takeComments mode)
    let label ← plain (fieldLabel oneof.isSome)
    let type ← plain (fieldType label)
    let name ← plain (expectName .fieldName)
    let _ ← plain (expectSign .equals)
    let number ← plain (fieldNumber mode)
    let options ← inlineOptions blocks
    let _ ← plain (expectSign .semicolon)
    let trailing ← plain (takeTrailing mode)
    pure ⟨name.text, type, number, label, options, comments ++ trailing, oneof⟩

def oneofItem (mode : Mode) (blocks : List Block) (o : Oneof) (t : Token) : Counted Oneof :=
  match t.kind with
  | .keyword .optionKw => do
    let opt ← optionStatement mode blocks
    pure { o with options := o.options ++ [opt] }
  | .punct .semicolon => do
    let _ ← emptyStatement blocks
    pure o
  | .eof => plain (unexpected t (.oneofEnd o.name))
  | _ => do
    let f ← field mode blocks (some o.name)
    pure { o with fields := o.fields ++ [f] }

def oneofGroup (mode : Mode) (blocks : List Block) : Counted Oneof :=
  item .declaration blocks do
    let comments ← plain (takeComments mode)
    let _ ← plain (expectKeyword .oneofKw)
    let name ← plain (expectName .oneofName)
    let _ ← plain (expectSign .lbrace)
    let o ← untilBrace (oneofItem mode (.oneof :: blocks)) ⟨name.text, [], [], comments⟩
    let _ ← plain (expectSign .rbrace)
    let trailing ← plain (takeTrailing mode)
    pure { o with comments := o.comments ++ trailing }

def messageItem (mode : Mode) (blocks : List Block) (nested : Counted Message)
    (d : Draft) (t : Token) :
    Counted Draft :=
  let line := t.pos.line
  match t.kind with
  | .keyword .messageKw => do
    let m ← nested
    let d ← plain (d.declareName mode line m.name)
    pure { d with message := { d.message with messages := d.message.messages ++ [m] } }
  | .keyword .enumKw => do
    let e ← enumeration mode blocks
    let d ← plain (d.declareName mode line e.name)
    pure { d with message := { d.message with enums := d.message.enums ++ [e] } }
  | .keyword .optionKw => do
    let o ← optionStatement mode blocks
    pure { d with message := { d.message with options := d.message.options ++ [o] } }
  | .keyword .oneofKw => do
    let o ← oneofGroup mode blocks
    let d ← plain (d.declareName mode line o.name)
    let d ← plain (o.fields.foldlM (Draft.declareField mode line) d)
    pure { d with message := { d.message with oneofs := d.message.oneofs ++ [o] } }
  | .keyword .reservedKw => do
    let r ← item .statement blocks (plain (reserved mode maxFieldNumber))
    pure { d with message := { d.message with
      reservedRanges := d.message.reservedRanges ++ r.ranges
      reservedNames := d.message.reservedNames ++ r.names } }
  | .keyword .extensionsKw => plain (fail (.unsupported (.inMessage t.text d.message.name) line))
  | .keyword .extendKw => plain (fail (.unsupported (.inMessage t.text d.message.name) line))
  | .punct .semicolon => do
    let _ ← emptyStatement blocks
    pure d
  | .eof => plain (unexpected t (.messageEnd d.message.name))
  | _ => do
    let f ← field mode blocks none
    plain (d.declareField mode line f)

/-- A message behind its name. The counter is lowered behind the closing brace. -/
def messageBlock (mode : Mode) (blocks : List Block) (nested : Counted Message) (name : String)
    (comments : List Comment) : Counted Message := do
  let _ ← plain (expectSign .lbrace)
  let d ← untilBrace (messageItem mode blocks nested)
    ⟨⟨name, [], [], [], [], comments, [], [], []⟩, []⟩
  plain (checkReserved mode d)
  let _ ← plain (expectSign .rbrace)
  leave
  let trailing ← plain (takeTrailing mode)
  pure { d.message with comments := d.message.comments ++ trailing }

/-- A message, where less than `bound` messages stand inside each other. The counter is raised
behind the name. -/
def messageWithin (mode : Mode) : Nat → List Block → Counted Message
  | 0, _ => plain (breakDown .stalled)
  | bound + 1, blocks => item .declaration blocks do
    let comments ← plain (takeComments mode)
    let _ ← plain (expectKeyword .messageKw)
    let name ← plain (expectName .messageName)
    enter (.message :: blocks) name
    messageBlock mode (.message :: blocks) (messageWithin mode bound (.message :: blocks))
      name.text comments

/-- A message. The counter stops more than `maxDepth` of them inside each other. -/
def message (mode : Mode) (blocks : List Block) : Counted Message :=
  messageWithin mode (maxDepth + 1) blocks

/-! ### Files -/

def headerItem (mode : Mode) (f : SchemaFile) (t : Token) : Counted SchemaFile :=
  match t.kind with
  | .keyword .packageKw =>
    if f.package.isSome then plain (fail (.duplicate .package t.pos.line))
    else do
      let name ← item .statement [] (plain (package mode))
      pure { f with package := some name }
  | .keyword .importKw => do
    let i ← item .statement [] (plain (importStatement mode))
    pure { f with imports := f.imports ++ [i] }
  | .keyword .optionKw => do
    let o ← optionStatement mode []
    pure { f with options := f.options ++ [o] }
  | _ => do
    let _ ← emptyStatement []
    pure f

def header (mode : Mode) : Counted SchemaFile := do
  let t ← plain peek
  let f ←
    if t.kind = .keyword .syntaxKw then
      let v ← item .statement [] (plain (version mode))
      pure { SchemaFile.empty with version := v }
    else pure SchemaFile.empty
  iterate isHeaderStart (headerItem mode) f

def definition (mode : Mode) (f : SchemaFile) (t : Token) : Counted SchemaFile :=
  let line := t.pos.line
  match t.kind with
  | .keyword .serviceKw => do
    let s ← service mode []
    plain (declare mode (defines f s.name) (.named s.name) line)
    pure { f with services := f.services ++ [s] }
  | .keyword .messageKw => do
    let m ← message mode []
    plain (declare mode (defines f m.name) (.named m.name) line)
    pure { f with messages := f.messages ++ [m] }
  | .keyword .enumKw => do
    let e ← enumeration mode []
    plain (declare mode (defines f e.name) (.named e.name) line)
    pure { f with enums := f.enums ++ [e] }
  | .punct .semicolon => do
    let _ ← emptyStatement []
    pure f
  | .keyword .extendKw => plain (fail (.unsupported .extendBlock line))
  | _ => plain (fail (.trailing t.text t.pos))

def file (mode : Mode) : Counted SchemaFile := do
  let f ← header mode
  iterate (fun t => t.kind ≠ .eof) (definition mode) f

end Counted

/-! ### Whole texts -/

/-- What came of reading a text with the counter, where the counter ended, and the marks on the way.
-/
structure Tally where
  outcome : Except Failure SchemaFile
  depth : Int
  marks : List Mark

/-- Reads a token stream with the counter. -/
def tallyTokens (mode : Mode) (s : TokenStream) : Tally :=
  match Counted.file mode ⟨.ofStream s, 0, []⟩ with
  | .ok f m => ⟨.ok f, m.depth, m.marks⟩
  | .error e m => ⟨.error e, m.depth, m.marks⟩

/-- Reads a text with the counter. -/
def tally (mode : Mode) (text : String) : Tally :=
  match Source.tokens text with
  | .ok s => tallyTokens mode s
  | .error e => ⟨.error (.report e), 0, []⟩

end ProtoRoutes.Grammar
