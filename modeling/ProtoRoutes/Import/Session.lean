import ProtoRoutes.Files.SourceText
import ProtoRoutes.Files.Tree
import ProtoRoutes.Import.Log
import ProtoRoutes.Settings.Basic

/-!
# ProtoRoutes.Import.Session

Loading schema files with the files that they import. A session keeps the files that were loaded, so
that each is read once, and the warnings about imports that could not be loaded. Its tree of files
may change between two operations; what was loaded before stays loaded.

While a file is loaded, the files on whose behalf that happens form a chain. A file of the chain may
not be imported again, and the chain may not become longer than the settings allow: `load` recurs on
the number of files that may still be added.
-/

namespace ProtoRoutes

open Files (Tree Path Location)

/-- What a session knows. -/
structure Session where
  cache : List (Location × SchemaFile)
  warnings : List String
  log : List LogRecord

namespace Session

/-- The session before anything happened. -/
def empty : Session := ⟨[], [], []⟩

/-- A step of a session. What it did to the session stays when it fails. -/
abbrev Action := EStateM Failure Session

/-- The files that are loaded, in the order of their texts. -/
def cachedFiles (s : Session) : List String :=
  (s.cache.map fun (loc, _) => loc.text).mergeSort

/-- Forgets the loaded files and the warnings. -/
def clear (s : Session) : Session :=
  { s with cache := [], warnings := [] }

/-! ### Steps -/

variable {α : Type}

/-- Adds records to the log. -/
def note (records : List LogRecord) : Action Unit := fun s =>
  .ok () { s with log := s.log ++ records }

/-- Records a warning. -/
def warn (warning : String) : Action Unit := fun s =>
  .ok () { s with log := s.log ++ [.importFailed warning], warnings := s.warnings ++ [warning] }

/-- The loaded file at a location. -/
def cached? (loc : Location) : Action (Option SchemaFile) := fun s =>
  .ok (s.cache.lookup loc) s

/-- Keeps a loaded file. -/
def store (loc : Location) (f : SchemaFile) : Action Unit := fun s =>
  .ok () { s with cache := s.cache ++ [(loc, f)] }

/-- Stops with a failure. -/
def stop (e : Failure) : Action α := fun s => .error e s

/-- Stops with an error. -/
def fail (e : SchemaError) : Action α := stop (.error e)

/-- Does a step and hands over its failure as a result. -/
def attempt (x : Action α) : Action (Except Failure α) := fun s =>
  match x s with
  | .ok a s => .ok (.ok a) s
  | .error e s => .ok (.error e) s

/-! ### Reading -/

/-- How texts are read under these settings. -/
def mode (settings : ParserSettings) : Grammar.Mode :=
  ⟨settings.strictValidation, settings.preserveComments⟩

/-- The tree of a text. -/
def parseText (settings : ParserSettings) (text : String) : Action SchemaFile := do
  let reading := Grammar.read (mode settings) text
  note (reading.deferrals.map .ruleDeferred)
  match reading.outcome with
  | .error e => stop e
  | .ok f =>
    note [.parsed f.services.length f.messages.length f.enums.length f.imports.length]
    pure f

/-- The text of the file that a path leads to. -/
def readText (tree : Tree) (p : Path) : Action String :=
  match (tree.follow (tree.startOf p) p.parts).map tree.find? with
  | .error .notDirectory => stop (.breakdown .notDirectory)
  | .error _ => fail (.fileNotFound p.text)
  | .ok (some (.file bytes)) =>
    match Files.sourceText? bytes with
    | none => fail (.notUtf8 p.text)
    | some text => pure text
  | .ok _ => fail (.fileNotFound p.text)

/-! ### Imports -/

/-- Imports of the annotation files are not loaded: their options are understood without them. -/
def isSkipped (path : String) : Bool :=
  "google/api/".toList.isPrefixOf path.toList

/-- Where an import may be: in the directory of the importing file, then in the include paths. -/
def candidates (settings : ParserSettings) (current : Option Location) (path : String) :
    List Path :=
  (current.toList.map fun loc => Path.join ⟨"/", loc.dropLast⟩ (.ofText path)) ++
    settings.includePaths.map fun p => (Path.ofText p).join (.ofText path)

/-- The path of an imported file. -/
def findImport (tree : Tree) (settings : ParserSettings) (current : Option Location)
    (path : String) : Action Path :=
  let places := candidates settings current path
  if settings.unnamedInclude then stop (.breakdown .unnamedPath)
  else
    match places.find? tree.isFile with
    | some p => pure p
    | none => fail (.importNotFound path (places.map Path.text))

/-- Whether a failed import can be passed over with a warning. Cycles and chains that are too long
never are, and neither are failures that are no errors of the imported file. -/
def isTolerable (settings : ParserSettings) : Failure → Option SchemaError
  | .error (.importCycle _) => none
  | .error (.importTooDeep _ _ _) => none
  | .error e => if settings.failOnImportErrors then none else some e
  | .breakdown _ => none

/-- The warning about an import. -/
def importWarning (current : Option Location) (path : String) (e : SchemaError) : String :=
  let source := match current with
    | some loc => loc.getLast?.getD ""
    | none => "<content>"
  source ++ ": could not load import " ++ Text.quoted path ++ ": " ++ e.message

/-- Loads one import, where `load` loads a file. -/
def resolveImport (tree : Tree) (settings : ParserSettings) (load : String → Action SchemaFile)
    (current : Option Location) (path : String) : Action Unit := do
  if isSkipped path then note [.importSkipped path]
  else
    let result ← attempt do
      let p ← findImport tree settings current path
      load p.text
    match result with
    | .ok _ => pure ()
    | .error failure =>
      match isTolerable settings failure with
      | some e => warn (importWarning current path e)
      | none => stop failure

/-- Loads the imports of a file, if the settings say so. -/
def resolveImports (tree : Tree) (settings : ParserSettings) (load : String → Action SchemaFile)
    (current : Option Location) (f : SchemaFile) : Action Unit :=
  if settings.resolveImports then
    f.dependencies.forM (resolveImport tree settings load current)
  else pure ()

/-- Loads the file that a path leads to, on behalf of a chain of files to which `room` files may
still be added. -/
def load (tree : Tree) (settings : ParserSettings) (room : Nat) (chain : List Location)
    (path : String) : Action SchemaFile := do
  match tree.canonical? (.ofText path) with
  | none => fail (.fileNotFound path)
  | some loc =>
    if chain.contains loc then fail (.importCycle ((chain ++ [loc]).map Location.text))
    else match ← cached? loc with
      | some f =>
        note [.cacheHit loc.text]
        pure f
      | none =>
        let depth := chain.length + 1
        match room with
        | 0 => fail (.importTooDeep loc.text depth settings.maxImportDepth)
        | room + 1 =>
          let text ← readText tree (.ofText path)
          note [.parsing loc.text depth]
          let f ← parseText settings text
          resolveImports tree settings (load tree settings room (chain ++ [loc])) (some loc) f
          store loc f
          pure f

/-- Loads with an empty chain. -/
def loadFresh (tree : Tree) (settings : ParserSettings) (path : String) : Action SchemaFile :=
  load tree settings settings.maxImportDepth.toNat [] path

/-! ### Operations -/

/-- Loads a file and, if the settings say so, the files that it imports. -/
def parseFile (tree : Tree) (settings : ParserSettings) (path : String) : Action SchemaFile :=
  loadFresh tree settings path

/-- Reads a text and, if the settings say so, loads the files that it imports. -/
def parseContent (tree : Tree) (settings : ParserSettings) (text : String) : Action SchemaFile := do
  let f ← parseText settings text
  resolveImports tree settings (loadFresh tree settings) none f
  pure f

/-- Loads a file and its imports in a session of its own, with further include paths. If that
succeeds, the warnings of that session are added to this one. -/
def parseWithImports (tree : Tree) (settings : ParserSettings) (path : String)
    (further : List String) : Action SchemaFile := fun s =>
  let settings :=
    { settings with includePaths := settings.includePaths ++ further, resolveImports := true }
  match parseFile tree settings path { empty with log := s.log } with
  | .ok f inner => .ok f { s with warnings := s.warnings ++ inner.warnings, log := inner.log }
  | .error e inner => .error e { s with log := inner.log }

end Session

end ProtoRoutes
