import ProtoRoutes.Text.Quoted

/-!
# ProtoRoutes.Settings.Error

What can be wrong with settings, and how it is told.
-/

namespace ProtoRoutes

/-- What is wrong with settings. -/
inductive SettingsError where
  | fileNotFound (path : String)
  | invalidToml (path : String)
  | unknownSection (name : String)
  | notTable (name : String)
  | unknownKey (key : String)
  | wrongKind (key expected found : String)
  | notBoolean (key raw : String)
  | notInteger (key raw : String)
  | depthOutOfRange (depth : Int)
  | invalidParameterName (name : String)
  deriving DecidableEq, Repr

namespace SettingsError

/-- The setting at fault. -/
def key? : SettingsError → Option String
  | fileNotFound _ => none
  | invalidToml _ => none
  | unknownSection name => some name
  | notTable name => some name
  | unknownKey key => some key
  | wrongKind key _ _ => some key
  | notBoolean key _ => some key
  | notInteger key _ => some key
  | depthOutOfRange _ => some "parser.max_import_depth"
  | invalidParameterName _ => some "extractor.common_query_params"

/-- What is wrong with it. -/
def text : SettingsError → String
  | fileNotFound path => "Config file not found: " ++ path
  | invalidToml path => "Invalid TOML in " ++ path
  | unknownSection _ => "unknown config section"
  | notTable _ => "expected a table"
  | unknownKey _ => "unknown config key"
  | wrongKind _ expected found => "expected " ++ expected ++ ", got " ++ found
  | notBoolean _ raw => "expected a boolean, got " ++ Text.quoted raw
  | notInteger _ raw => "expected an integer, got " ++ Text.quoted raw
  | depthOutOfRange depth => s!"must be between 1 and 100, got {depth}"
  | invalidParameterName name => Text.quoted name ++ " is not a valid parameter name"

/-- The message of an error: the setting at fault and what is wrong with it. A setting whose name
is empty is not named. -/
def message (e : SettingsError) : String :=
  match e.key? with
  | none | some "" => e.text
  | some key => key ++ ": " ++ e.text

end SettingsError

/-- Failures that are no errors of the settings. -/
inductive SettingsBreakdown where
  | notUtf8
  /-- A decimal integer with more digits than are read. -/
  | longNumber
  /-- An integer with more digits than are written. -/
  | unprintable
  deriving DecidableEq, Repr

/-- Why settings cannot be loaded. -/
inductive SettingsFailure where
  | error (e : SettingsError)
  | breakdown (b : SettingsBreakdown)
  deriving DecidableEq, Repr

end ProtoRoutes
