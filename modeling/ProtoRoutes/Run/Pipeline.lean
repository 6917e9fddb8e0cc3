import ProtoRoutes.Http.Check
import ProtoRoutes.Import.Session
import ProtoRoutes.Run.Arguments
import ProtoRoutes.Run.Failure
import ProtoRoutes.Settings.Load
import ProtoRoutes.Text.Search

/-!
# ProtoRoutes.Run.Pipeline

A whole run: settings, schema files, routes, checks, modules. A run first prepares everything and
only then writes: what prepares has the file tree as an argument and cannot change it, what writes
changes the tree. So a run that finds an error in its input has changed nothing.
-/

namespace ProtoRoutes.Run

open Files (Tree Path)

/-- The settings of a run: those of the file and the environment, but for what its arguments say. -/
def settingsOf (tree : Tree) (env : Settings.Environment) (args : Arguments) :
    Except Failure Settings := do
  let s ← (Settings.load tree args.config env).mapError .ofSettings
  pure { s with
    parser.includePaths := s.parser.includePaths ++ args.includePaths
    parser.unnamedInclude := args.unnamedInclude
    extractor.inferQueryParams := args.inferQueryParams.getD s.extractor.inferQueryParams
    extractor.allowCustomMethods := args.allowCustomMethods.getD s.extractor.allowCustomMethods }

/-! ### Preparation -/

/-- A schema file with its routes. -/
structure Input where
  path : String
  file : SchemaFile
  routes : List Route

/-- What a preparation leaves. -/
structure Trace where
  printed : List String
  session : Session

/-- A step of a preparation. -/
abbrev Preparation := EStateM Failure Trace

/-- Prints a line. -/
def print (line : String) : Preparation Unit := fun t =>
  .ok () { t with printed := t.printed ++ [line] }

/-- Adds a record to the log. -/
def note (record : LogRecord) : Preparation Unit := fun t =>
  .ok () { t with session := { t.session with log := t.session.log ++ [record] } }

/-- Goes on with a result, or stops with an error. -/
def orFail {α ε : Type} (wrap : ε → Error) : Except ε α → Preparation α
  | .ok a => pure a
  | .error e => throw (.error (wrap e))

/-- Does a step of the session. -/
def inSession {α : Type} (x : Session.Action α) : Preparation α := fun t =>
  match x t.session with
  | .ok a session => .ok a { t with session }
  | .error e session => .error (.ofSchema e) { t with session }

/-- Goes on with a path, if it is named. -/
def orUnnamed {σ : Type} : Option String → EStateM Failure σ String
  | some path => pure path
  | none => throw (.breakdown .unnamedPath)

/-- The schema files that a path stands for: itself, or those below it. -/
def schemaFiles (tree : Tree) (path : String) : List String :=
  let p := Path.ofText path
  if tree.isFile p then [p.text]
  else tree.findBelow p fun name => Text.endsWith ".proto".toList name.toList

/-- Loads a schema file and takes out its routes. -/
def readInput (tree : Tree) (settings : Settings) (path : String) : Preparation Input := do
  let file ← inSession (Session.parseFile tree settings.parser path)
  let routes ← orFail .route (Route.ofFile settings.extractor file)
  note (.extracted routes.length)
  print s!"  Parsed {path}: {file.services.length} service(s), {routes.length} route(s)"
  pure ⟨path, file, routes⟩

/-- Claims the stems of all files, so that no module is written twice. -/
def claimStems (inputs : List Input) : Except Scaffold.StemConflict Scaffold.Claims :=
  inputs.foldlM (fun claims input => (Scaffold.claim claims input.file input.routes).map (·.2)) []

/-- Reads and checks all schema files. -/
def prepare (tree : Tree) (settings : Settings) (proto : Option String) :
    Preparation (List Input) := do
  let path ← orUnnamed proto
  let files := schemaFiles tree path
  if files.isEmpty then throw (.error (.noSchemaFiles path))
  print s!"Found {files.length} proto file(s)"
  let inputs ← files.mapM (readInput tree settings)
  (← get).session.warnings.forM fun w => print ("  WARNING: " ++ w)
  let routes := inputs.flatMap (·.routes)
  orFail .route (Route.check settings.extractor routes)
  let _ ← orFail .stems (claimStems inputs)
  print s!"Validated {routes.length} route(s)"
  pure inputs

/-! ### Writing -/

/-- A tree and the lines printed so far. -/
structure Site where
  tree : Tree
  printed : List String

/-- A step of the writing. -/
abbrev Writing := EStateM Failure Site

/-- Changes the tree. -/
def change (x : Tree.Change Unit) : Writing Unit := fun s =>
  match x s.tree with
  | .ok _ tree => .ok () { s with tree }
  | .error e tree => .error (.breakdown (.files e)) { s with tree }

/-- Says which files were written. -/
def announce (paths : List String) : Writing Unit := fun s =>
  .ok () { s with printed := s.printed ++ paths.map ("  Generated: " ++ ·) }

/-- Writes the modules of a schema file and gives their paths. -/
def writeModules (settings : GeneratorSettings) (directory : Option String) (input : Input) :
    Writing (List String) := do
  let source := (Path.ofText input.path).name
  match Scaffold.modules settings source input.file input.routes with
  | .error c => throw (.error (.stems c))
  | .ok modules =>
    let out ← orUnnamed directory
    change (Tree.makeDirectories out)
    modules.forM fun m => change (Tree.write (.ofText (Files.under out m.fileName)) m.text.toUTF8)
    let paths := modules.map fun m => Files.under out m.fileName
    announce paths
    pure paths

/-! ### Runs -/

/-- What a run leaves. -/
structure Outcome where
  /-- The paths of the modules, or why there are none. -/
  ending : Except Failure (List String)
  printed : List String
  log : List LogRecord
  tree : Tree

/-- Writes the modules of all files. -/
def writeAll (settings : GeneratorSettings) (directory : Option String) (inputs : List Input) :
    Writing (List String) :=
  (inputs.mapM (writeModules settings directory)).map List.flatten

/-- Prepares and writes. -/
def run (tree : Tree) (env : Settings.Environment) (args : Arguments) : Outcome :=
  match settingsOf tree env args with
  | .error e => ⟨.error e, [], [], tree⟩
  | .ok settings =>
    match prepare tree settings args.proto ⟨[], .empty⟩ with
    | .error e t => ⟨.error e, t.printed, t.session.log, tree⟩
    | .ok inputs t =>
      if args.validateOnly then ⟨.ok [], t.printed, t.session.log, tree⟩
      else match writeAll settings.generator args.out inputs ⟨tree, t.printed⟩ with
        | .error e s => ⟨.error e, s.printed, t.session.log, s.tree⟩
        | .ok paths s => ⟨.ok paths, s.printed ++ ["Done!"], t.session.log, s.tree⟩

namespace Outcome

/-- What a run prints. -/
def stdout (o : Outcome) : String :=
  String.join (o.printed.map (· ++ "\n"))

/-- The records that are shown. -/
def shownLog (o : Outcome) (verbose : Bool) : List LogRecord :=
  o.log.filter fun r => verbose || r.level = .warning

/-- What a run logs and reports. -/
def stderr (o : Outcome) (verbose : Bool) : String :=
  let report := match o.ending with
    | .error (.error e) => "FATAL: " ++ e.message ++ "\n"
    | _ => ""
  String.join ((o.shownLog verbose).map LogRecord.line) ++ report

/-- The exit code of a run, unless it broke down. -/
def exitCode? (o : Outcome) : Option UInt8 :=
  match o.ending with
  | .ok _ => some 0
  | .error (.error _) => some 1
  | .error (.breakdown _) => none

end Outcome

end ProtoRoutes.Run
