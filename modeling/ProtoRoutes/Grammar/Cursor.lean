import ProtoRoutes.Source.Error
import ProtoRoutes.Schema.File

/-!
# ProtoRoutes.Grammar.Cursor

The parser's place in a token stream, and the few operations that move it. All rules of the grammar
are written with `peek`, `advance`, the two comment operations, `fail` and one loop, `iterate`.

Comments are no part of the grammar. A `Lexeme` is a token with the comments behind it, so the rules
see only tokens, and the comments that are passed on the way are kept aside:

* `passed` are those between tokens that were consumed since comments were last collected;
* `fresh` are those between the last consumed token and the next one.

A declaration collects both when it starts (`takeComments`). When it ends, those inside it are
dropped, and a fresh one on the line of its last token becomes its trailing comment
(`takeTrailing`).
-/

namespace ProtoRoutes.Grammar

/-- A token with the comments behind it. -/
structure Lexeme where
  token : Token
  comments : List Token

/-- Splits tokens into the comments in front of the first proper token, and the lexemes. -/
def attach : List Token → List Token × List Lexeme
  | [] => ([], [])
  | t :: ts =>
    let (comments, lexemes) := attach ts
    if t.kind = .comment then (t :: comments, lexemes) else ([], ⟨t, comments⟩ :: lexemes)

/-- An HTTP rule that could not be decoded, and the method that it was given for. The option stays
with the method, so that the extraction of routes reports it. -/
structure Deferral where
  method : String
  error : RuleError

/-- A place in a token stream. -/
structure Cursor where
  passed : List Token
  fresh : List Token
  rest : List Lexeme
  stop : Position
  /-- The line on which the last consumed token ends. -/
  lastLine : Nat
  deferrals : List Deferral

namespace Cursor

/-- The place in front of a token stream. -/
def ofStream (s : TokenStream) : Cursor :=
  let (comments, lexemes) := attach s.tokens
  ⟨[], comments, lexemes, s.stop, 0, []⟩

/-- The next token. -/
def next (c : Cursor) : Token :=
  match c.rest with
  | [] => .eof c.stop
  | l :: _ => l.token

/-- The token behind the next one. -/
def second (c : Cursor) : Token :=
  match c.rest with
  | _ :: l :: _ => l.token
  | _ => .eof c.stop

/-- The place behind the next token. The end of the stream is never passed. -/
def step (c : Cursor) : Cursor :=
  match c.rest with
  | [] => c
  | l :: rest =>
    { c with
      passed := c.passed ++ c.fresh, fresh := l.comments, rest, lastLine := l.token.endLine }

end Cursor

/-- A rule of the grammar. What it did to the cursor stays known when it fails. -/
abbrev Parser := EStateM Failure Cursor

/-- What the grammar checks beyond form, and whether it keeps comments. -/
structure Mode where
  /-- Whether duplicate names and numbers, reserved ones and numbers out of range are errors. -/
  strict : Bool
  comments : Bool

/-! ### Tokens -/

/-- The next token, which stays the next one. -/
def peek : Parser Token := fun c => .ok c.next c

/-- The token behind the next one. -/
def peekSecond : Parser Token := fun c => .ok c.second c

/-- Consumes the next token. -/
def advance : Parser Token := fun c => .ok c.next c.step

/-- Stops with an error. -/
def fail {α : Type} (e : SchemaError) : Parser α := fun c => .error (.report e) c

/-- Stops without a report. -/
def breakDown {α : Type} (b : Breakdown) : Parser α := fun c => .error (.breakdown b) c

/-- Stops because a token is not what was expected. -/
def unexpected {α : Type} (t : Token) (expected : Expected) : Parser α :=
  fail (.unexpected t.shown t.pos expected)

/-- Consumes a token of a kind. -/
def expectKind (kind : TokenKind) (expected : Expected) : Parser Token := do
  let t ← peek
  if t.kind = kind then advance else unexpected t expected

/-- Consumes a sign. -/
def expectSign (p : Punct) : Parser Token :=
  expectKind (.punct p) (.sign p)

/-- Consumes a keyword. -/
def expectKeyword (k : Keyword) : Parser Token :=
  expectKind (.keyword k) (.keyword k)

/-- Consumes a name. -/
def expectName (expected : Expected) : Parser Token := do
  let t ← peek
  if t.isName then advance else unexpected t expected

/-- Consumes a sign if it is next. -/
def accept (p : Punct) : Parser Bool := do
  let t ← peek
  if t.isPunct p then
    let _ ← advance
    pure true
  else pure false

/-! ### Comments -/

/-- The comments in front of a declaration on a line. Those without text are left out, and those
with a line between them and the declaration are detached. -/
def commentsBefore (line : Nat) (tokens : List Token) : List Comment :=
  (tokens.filter (!·.text.isEmpty)).map fun t =>
    ⟨if t.endLine + 1 < line then .detached else .leading, t.text⟩

/-- Collects the comments in front of the declaration that starts here. -/
def takeComments (mode : Mode) : Parser (List Comment) := fun c =>
  let comments := if mode.comments then commentsBefore c.next.pos.line (c.passed ++ c.fresh) else []
  .ok comments { c with passed := [], fresh := [] }

/-- A trailing comment, unless it has no text. -/
def trailingComment (mode : Mode) (t : Token) : List Comment :=
  if mode.comments && !t.text.isEmpty then [⟨.trailing, t.text⟩] else []

/-- Collects the comment behind the declaration that ends here, if it starts on the line of the last
token. The comments inside the declaration are dropped. -/
def takeTrailing (mode : Mode) : Parser (List Comment) := fun c =>
  match c.fresh with
  | [] => .ok [] { c with passed := [] }
  | t :: fresh =>
    if t.pos.line = c.lastLine then .ok (trailingComment mode t) { c with passed := [], fresh }
    else .ok [] { c with passed := [] }

/-- Records HTTP rules of a method that could not be decoded. -/
def defer (method : String) (errors : List RuleError) : Parser Unit := fun c =>
  .ok () { c with deferrals := c.deferrals ++ errors.map (⟨method, ·⟩) }

/-! ### Loops -/

variable {σ α : Type}

/-- At most `bound` steps of a loop that goes on while the next token satisfies `more`. -/
def iterateFor (more : Token → Bool) (step : σ → Token → Parser σ) : Nat → σ → Parser σ
  | 0, _ => breakDown .stalled
  | bound + 1, s => do
    let t ← peek
    if more t then
      let s' ← step s t
      iterateFor more step bound s'
    else pure s

/-- Repeats a step while the next token satisfies `more`. Every step of the grammar's loops consumes
a token or fails, so that one step more than there are tokens is never reached. -/
def iterate (more : Token → Bool) (step : σ → Token → Parser σ) (s : σ) : Parser σ := fun c =>
  iterateFor more step (c.rest.length + 1) s c

/-- The items up to the first token that does not start one. -/
def many (more : Token → Bool) (item : Parser α) : Parser (List α) :=
  iterate more (fun items _ => do
    let a ← item
    pure (items ++ [a])) []

/-- Items behind commas. -/
def commaSeparated (item : Parser α) : Parser (List α) := do
  let first ← item
  let others ← many (·.isPunct .comma) do
    let _ ← advance
    item
  pure (first :: others)

/-- Repeats a step up to the closing brace, which stays. -/
def untilBrace (step : σ → Token → Parser σ) (s : σ) : Parser σ :=
  iterate (fun t => !t.isPunct .rbrace) step s

end ProtoRoutes.Grammar
