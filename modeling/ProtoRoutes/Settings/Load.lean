import ProtoRoutes.Files.Tree
import ProtoRoutes.Settings.Error
import ProtoRoutes.Settings.Setting
import ProtoRoutes.Text.Identifier
import ProtoRoutes.Toml.Document

/-!
# ProtoRoutes.Settings.Load

Where settings come from: their default values, over those a document, over both the environment.
The outcome is checked at the end, so that one layer may mend what the one below left.
-/

namespace ProtoRoutes.Settings

open Files (Tree Path)

/-! ### Documents -/

/-- The settings with one entry of a table. -/
def applyEntry (sectionName : String) (s : Settings) (entry : String × Toml.Value) :
    Except SettingsError Settings :=
  let key := sectionName ++ "." ++ entry.1
  match Setting.all.find? fun f => f.sectionName = sectionName && f.key = entry.1 with
  | none => .error (.unknownKey key)
  | some f =>
    match f.kind.ofToml? entry.2 with
    | none => .error (.wrongKind key f.kind.text (SettingKind.textOf entry.2))
    | some v => .ok (f.set v s)

/-- The sections of a document. -/
def sectionNames : List String := ["parser", "extractor", "generator"]

/-- The settings with one section of a document. -/
def applySection (s : Settings) (entry : String × Toml.Value) : Except SettingsError Settings :=
  if sectionNames.contains entry.1 then
    match entry.2 with
    | .table entries => entries.foldlM (applyEntry entry.1) s
    | _ => .error (.notTable entry.1)
  else .error (.unknownSection entry.1)

/-- The settings of a document. -/
def ofToml (document : Toml.Table) : Except SettingsError Settings :=
  document.foldlM applySection {}

/-- The settings of a file. -/
def ofFile (tree : Tree) (p : Path) : Except SettingsFailure Settings :=
  match tree.bytes? p with
  | none => .error (.error (.fileNotFound p.text))
  | some bytes =>
    match String.fromUTF8? bytes with
    | none => .error (.breakdown .notUtf8)
    | some text =>
      match Toml.parse text with
      | .error .longNumber => .error (.breakdown .longNumber)
      | .error .malformed => .error (.error (.invalidToml p.text))
      | .ok document => (ofToml document).mapError .error

/-- Where settings are looked up if no file is named. -/
def fileNames : List String :=
  ["protoc-rest.toml", ".protoc-rest.toml", "config/protoc-rest.toml"]

/-- The file with the settings of a directory. -/
def find? (tree : Tree) (base : Path) : Option Path :=
  (fileNames.map fun name => base.join (.ofText name)).find? tree.isFile

/-- The working directory. -/
def workingDirectory (tree : Tree) : Path := ⟨"/", tree.cwd⟩

/-! ### The environment -/

/-- The environment variables and their values. -/
abbrev Environment := List (String × String)

/-- The error about a variable that stands for no value. -/
def variableError (f : Setting) (raw : String) : SettingsError :=
  match f.kind with
  | .number => .notInteger f.variableName raw
  | _ => .notBoolean f.variableName raw

/-- Overrides a setting by its variable, if there is one. -/
def overrideBy (env : Environment) (f : Setting) : EStateM SettingsError Settings Unit := fun s =>
  match env.lookup f.variableName with
  | none => .ok () s
  | some raw =>
    match f.kind.ofText? raw with
    | some v => .ok () (f.set v s)
    | none => .error (variableError f raw) s

/-- Overrides settings by the environment. Those in front of a bad one stay overridden. -/
def mergeEnvironment (env : Environment) : EStateM SettingsError Settings Unit :=
  Setting.all.forM (overrideBy env)

/-! ### The check -/

/-- The longest chain of imports that can be allowed. -/
def maxDepthLimit : Int := 100

/-- Fails if a setting has a value without a meaning. -/
def check (s : Settings) : Except SettingsFailure Unit :=
  let depth := s.parser.maxImportDepth
  if depth < 1 ∨ maxDepthLimit < depth then
    if depth.natAbs < Nat.pow 10 Number.maxDecimalDigits
      then .error (.error (.depthOutOfRange depth))
    else .error (.breakdown .unprintable)
  else
    match s.extractor.commonQueryParams.find? fun name => !Text.isName name.toList with
    | some name => .error (.error (.invalidParameterName name))
    | none => .ok ()

/-! ### All layers -/

/-- The settings before the environment counts: those of a named file, else those of the file in the
working directory, else the default ones. -/
def base (tree : Tree) (path : String) : Except SettingsFailure Settings :=
  let file := if path.isEmpty then find? tree (workingDirectory tree) else some (.ofText path)
  match file with
  | some p => ofFile tree p
  | none => .ok {}

/-- The settings of all layers. -/
def load (tree : Tree) (path : String) (env : Environment) : Except SettingsFailure Settings := do
  let s ← base tree path
  match mergeEnvironment env s with
  | .error e _ => .error (.error e)
  | .ok _ s =>
    check s
    pure s

end ProtoRoutes.Settings
