import ProtoRoutes.Grammar.Messages
import ProtoRoutes.Source.Lexer

/-!
# ProtoRoutes.Grammar.Files

Whole files: an optional version statement, then the package, imports and options in any order, then
services, messages and enums in any order. `parse` reads a text.
-/

namespace ProtoRoutes.Grammar

/-! ### Header -/

/-- The version statement. -/
def version (mode : Mode) : Parser Version := do
  let _ ← expectKeyword .syntaxKw
  let _ ← expectSign .equals
  let t ← expectKind .string .versionString
  match Version.ofText? t.text with
  | none => fail (.defect t.pos (.unknownVersion t.text))
  | some v =>
    let _ ← expectSign .semicolon
    let _ ← takeTrailing mode
    pure v

/-- The package statement. -/
def package (mode : Mode) : Parser String := do
  let _ ← expectKeyword .packageKw
  let name ← fullIdent
  let _ ← expectSign .semicolon
  let _ ← takeTrailing mode
  pure name

/-- How an import passes on what it brings: a word in front of its path tells. -/
def importKind : Parser ImportKind := do
  let t ← peek
  if t.isWord "public" then
    let _ ← advance
    pure .exported
  else if t.isWord "weak" then
    let _ ← advance
    pure .weak
  else pure .normal

/-- An import statement. -/
def importStatement (mode : Mode) : Parser Import := do
  let _ ← expectKeyword .importKw
  let kind ← importKind
  let path ← stringValue
  let _ ← expectSign .semicolon
  let _ ← takeTrailing mode
  pure ⟨kind, path⟩

/-- Whether a token starts a statement of the header. -/
def isHeaderStart (t : Token) : Bool :=
  match t.kind with
  | .keyword .packageKw | .keyword .importKw | .keyword .optionKw | .punct .semicolon => true
  | _ => false

/-- A step of the header. There is one package statement at most, in every mode. -/
def headerItem (mode : Mode) (f : SchemaFile) (t : Token) : Parser SchemaFile :=
  match t.kind with
  | .keyword .packageKw =>
    if f.package.isSome then fail (.duplicate .package t.pos.line)
    else do
      let name ← package mode
      pure { f with package := some name }
  | .keyword .importKw => do
    let i ← importStatement mode
    pure { f with imports := f.imports ++ [i] }
  | .keyword .optionKw => do
    let o ← optionStatement mode maxDepth
    pure { f with options := f.options ++ [o] }
  | _ => do
    let _ ← advance
    pure f

/-- The header of a file. -/
def header (mode : Mode) : Parser SchemaFile := do
  let t ← peek
  let f ←
    if t.kind = .keyword .syntaxKw then
      let v ← version mode
      pure { SchemaFile.empty with version := v }
    else pure SchemaFile.empty
  iterate isHeaderStart (headerItem mode) f

/-! ### Definitions -/

/-- Whether a file defines a name at its top level. -/
def defines (f : SchemaFile) (name : String) : Bool :=
  f.services.any (·.name = name) || f.messages.any (·.name = name) || f.enums.any (·.name = name)

/-- A definition of a file. -/
def definition (mode : Mode) (f : SchemaFile) (t : Token) : Parser SchemaFile :=
  let line := t.pos.line
  match t.kind with
  | .keyword .serviceKw => do
    let s ← service mode
    declare mode (defines f s.name) (.named s.name) line
    pure { f with services := f.services ++ [s] }
  | .keyword .messageKw => do
    let m ← message mode maxDepth
    declare mode (defines f m.name) (.named m.name) line
    pure { f with messages := f.messages ++ [m] }
  | .keyword .enumKw => do
    let e ← enumeration mode maxDepth
    declare mode (defines f e.name) (.named e.name) line
    pure { f with enums := f.enums ++ [e] }
  | .punct .semicolon => do
    let _ ← advance
    pure f
  | .keyword .extendKw => fail (.unsupported .extendBlock line)
  | _ => fail (.trailing t.text t.pos)

/-- A whole file. -/
def file (mode : Mode) : Parser SchemaFile := do
  let f ← header mode
  iterate (fun t => t.kind ≠ .eof) (definition mode) f

/-- What came of reading a text, and the HTTP rules that could not be decoded on the way. -/
structure Reading where
  outcome : Except Failure SchemaFile
  deferrals : List Deferral

/-- Reads a token stream. -/
def readTokens (mode : Mode) (s : TokenStream) : Reading :=
  match file mode (.ofStream s) with
  | .ok f c => ⟨.ok f, c.deferrals⟩
  | .error e c => ⟨.error e, c.deferrals⟩

/-- Reads a text. -/
def read (mode : Mode) (text : String) : Reading :=
  match Source.tokens text with
  | .ok s => readTokens mode s
  | .error e => ⟨.error (.report e), []⟩

/-- The tree of a text. -/
def parse (mode : Mode) (text : String) : Except Failure SchemaFile :=
  (read mode text).outcome

end ProtoRoutes.Grammar
