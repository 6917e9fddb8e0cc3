import ProtoRoutes.Settings.Basic
import ProtoRoutes.Text.Blank
import ProtoRoutes.Text.Case
import ProtoRoutes.Text.Digit
import ProtoRoutes.Number.Literal
import ProtoRoutes.Toml.Value

/-!
# ProtoRoutes.Settings.Setting

The single settings: where each stands in a document, which environment variable overrides it, what
kind of value it has, and how it is read and changed.
-/

namespace ProtoRoutes

/-- The kinds of settings. -/
inductive SettingKind where
  | flag
  | number
  /-- Directories. As a text they are divided by colons. -/
  | paths
  /-- Names. As a text they are divided by commas. -/
  | names
  deriving DecidableEq, Repr

namespace SettingKind

/-- The values of a setting. -/
abbrev Value : SettingKind → Type
  | flag => Bool
  | number => Int
  | paths => List String
  | names => List String

/-- How messages call a kind. -/
def text : SettingKind → String
  | flag => "bool"
  | number => "int"
  | paths => "list"
  | names => "list"

/-! ### Values in a document -/

/-- The texts of an array that holds nothing else. -/
def texts? : Toml.Value → Option (List String)
  | .array items => items.mapM fun
    | .string s => some s
    | _ => none
  | _ => none

/-- The value that stands in a document. -/
def ofToml? : (kind : SettingKind) → Toml.Value → Option kind.Value
  | flag, .boolean b => some b
  | number, .integer n => some n
  | paths, v => texts? v
  | names, v => texts? v
  | flag, _ => none
  | number, _ => none

/-- How messages call what stands in a document. -/
def textOf : Toml.Value → String
  | .string _ => "str"
  | .integer _ => "int"
  | .boolean _ => "bool"
  | .float _ => "float"
  | .datetime _ => "datetime"
  | .date _ => "date"
  | .time _ => "time"
  | .array _ => "list"
  | .table _ => "dict"

/-! ### Values as texts -/

/-- The truth value that a word stands for, in any mixture of cases. -/
def flag? (cs : List Char) : Option Bool :=
  let word := String.ofList (Text.lower cs)
  if ["true", "1", "yes", "on"].contains word then some true
  else if ["false", "0", "no", "off"].contains word then some false
  else none

/-- The values of digits, between which single underscores may stand. -/
def digits? : List Char → Option (List Nat)
  | [] => none
  | [c] => (Text.digitValue? c).map ([·])
  | c :: d :: rest =>
    (Text.digitValue? c).bind fun n =>
      (if d = '_' then digits? rest else digits? (d :: rest)).map (n :: ·)

/-- The number that decimal digits stand for. -/
def natural? (cs : List Char) : Option Nat :=
  (digits? cs).bind fun ds =>
    if Number.maxDecimalDigits < ds.length then none else some (ds.foldl (fun n d => n * 10 + d) 0)

/-- The integer that a text stands for: decimal digits of any script behind an optional sign. -/
def integer? : List Char → Option Int
  | '-' :: cs => (natural? cs).map fun n => -(n : Int)
  | '+' :: cs => (natural? cs).map Int.ofNat
  | cs => (natural? cs).map Int.ofNat

/-- The directories in a text. -/
def splitPaths (cs : List Char) : List String :=
  ((cs.splitOn ':').filter (!·.isEmpty)).map String.ofList

/-- The names in a text. -/
def splitNames (cs : List Char) : List String :=
  (((cs.splitOn ',').map Text.trim).filter (!·.isEmpty)).map String.ofList

/-- The value that a text stands for. -/
def ofText? (kind : SettingKind) (raw : String) : Option kind.Value :=
  let cs := Text.trim raw.toList
  match kind with
  | flag => flag? cs
  | number => integer? cs
  | paths => some (splitPaths cs)
  | names => some (splitNames cs)

end SettingKind

/-- A single setting. -/
structure Setting where
  /-- The table of a document that holds it. -/
  sectionName : String
  /-- Its key there. -/
  key : String
  kind : SettingKind
  get : Settings → kind.Value
  set : kind.Value → Settings → Settings

namespace Setting

/-- The settings of the reader of schemas. -/
def parser : List Setting := [
  ⟨"parser", "include_paths", .paths, (·.parser.includePaths),
    fun v s => { s with parser.includePaths := v, parser.unnamedInclude := false }⟩,
  ⟨"parser", "preserve_comments", .flag, (·.parser.preserveComments),
    fun v s => { s with parser.preserveComments := v }⟩,
  ⟨"parser", "strict_validation", .flag, (·.parser.strictValidation),
    fun v s => { s with parser.strictValidation := v }⟩,
  ⟨"parser", "max_import_depth", .number, (·.parser.maxImportDepth),
    fun v s => { s with parser.maxImportDepth := v }⟩,
  ⟨"parser", "resolve_imports", .flag, (·.parser.resolveImports),
    fun v s => { s with parser.resolveImports := v }⟩,
  ⟨"parser", "fail_on_import_errors", .flag, (·.parser.failOnImportErrors),
    fun v s => { s with parser.failOnImportErrors := v }⟩]

/-- The settings of the extraction of routes. -/
def extractor : List Setting := [
  ⟨"extractor", "infer_query_params", .flag, (·.extractor.inferQueryParams),
    fun v s => { s with extractor.inferQueryParams := v }⟩,
  ⟨"extractor", "common_query_params", .names, (·.extractor.commonQueryParams),
    fun v s => { s with extractor.commonQueryParams := v }⟩,
  ⟨"extractor", "validate_http_methods", .flag, (·.extractor.validateHttpMethods),
    fun v s => { s with extractor.validateHttpMethods := v }⟩,
  ⟨"extractor", "allow_custom_methods", .flag, (·.extractor.allowCustomMethods),
    fun v s => { s with extractor.allowCustomMethods := v }⟩,
  ⟨"extractor", "strict_query_params", .flag, (·.extractor.strictQueryParams),
    fun v s => { s with extractor.strictQueryParams := v }⟩]

/-- The settings of the scaffolding. -/
def generator : List Setting := [
  ⟨"generator", "generate_service_interfaces", .flag, (·.generator.generateServiceInterfaces),
    fun v s => { s with generator.generateServiceInterfaces := v }⟩,
  ⟨"generator", "generate_controllers", .flag, (·.generator.generateControllers),
    fun v s => { s with generator.generateControllers := v }⟩]

/-- All settings. -/
def all : List Setting := parser ++ extractor ++ generator

/-- The environment variable of a setting. -/
def variableName (s : Setting) : String :=
  "PROTOC_REST_" ++ String.ofList (s.key.toList.map Char.toUpper)

end Setting

end ProtoRoutes
