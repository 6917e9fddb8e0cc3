/-!
# ProtoRoutes.Settings.Basic

The settings of the reader of schemas, of the extraction of routes and of the scaffolding, with
their default values.
-/

namespace ProtoRoutes

/-- Settings of the reader of schemas. -/
structure ParserSettings where
  /-- Directories in which imports are looked up. -/
  includePaths : List String := ["."]
  /-- Whether one more such directory was asked for without being named. Then nothing can be looked
  up. A document and the environment cannot ask so, and the directories that they name replace it
  with the others. -/
  unnamedInclude : Bool := false
  preserveComments : Bool := true
  strictValidation : Bool := true
  maxImportDepth : Int := 10
  resolveImports : Bool := true
  failOnImportErrors : Bool := false
  deriving DecidableEq, Repr

/-- Settings of the extraction of routes. -/
structure ExtractorSettings where
  inferQueryParams : Bool := true
  /-- The query parameters that routes get. -/
  commonQueryParams : List String :=
    ["page", "limit", "offset", "sort", "order", "filter", "search"]
  validateHttpMethods : Bool := true
  allowCustomMethods : Bool := false
  /-- Whether a route gets only those query parameters that its input message has a field for. -/
  strictQueryParams : Bool := false
  deriving DecidableEq, Repr

/-- Settings of the scaffolding. -/
structure GeneratorSettings where
  generateServiceInterfaces : Bool := true
  generateControllers : Bool := true
  deriving DecidableEq, Repr

/-- All settings. -/
structure Settings where
  parser : ParserSettings := {}
  extractor : ExtractorSettings := {}
  generator : GeneratorSettings := {}
  deriving DecidableEq, Repr

end ProtoRoutes
