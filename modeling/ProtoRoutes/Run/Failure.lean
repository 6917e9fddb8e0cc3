import ProtoRoutes.Files.Tree
import ProtoRoutes.Http.Route
import ProtoRoutes.Scaffold.Modules
import ProtoRoutes.Settings.Error
import ProtoRoutes.Source.Error

/-!
# ProtoRoutes.Run.Failure

Why a run fails. Errors are found in what the user wrote and reported to them; breakdowns are
everything else.
-/

namespace ProtoRoutes.Run

/-- What is wrong with the input of a run. -/
inductive Error where
  | settings (e : SettingsError)
  | noSchemaFiles (path : String)
  | schema (e : SchemaError)
  | route (e : RouteError)
  | stems (c : Scaffold.StemConflict)

/-- The message of an error. -/
def Error.message : Error → String
  | settings e => e.message
  | noSchemaFiles path => "No .proto files found under " ++ path
  | schema e => e.message
  | route e => e.message
  | stems c => c.message

/-- Failures that are no errors of the input. -/
inductive Breakdown where
  | settings (b : SettingsBreakdown)
  | schema (b : ProtoRoutes.Breakdown)
  | files (e : Files.Error)
  /-- A path was asked for without being named. -/
  | unnamedPath

/-- Why a run fails. -/
inductive Failure where
  | error (e : Error)
  | breakdown (b : Breakdown)

/-- A failure to load settings. -/
def Failure.ofSettings : SettingsFailure → Failure
  | .error e => error (.settings e)
  | .breakdown b => breakdown (.settings b)

/-- A failure to read schemas. -/
def Failure.ofSchema : ProtoRoutes.Failure → Failure
  | .error e => error (.schema e)
  | .breakdown b => breakdown (.schema b)

end ProtoRoutes.Run
