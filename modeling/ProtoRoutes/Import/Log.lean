import ProtoRoutes.Grammar.Files

/-!
# ProtoRoutes.Import.Log

What is recorded while schemas are loaded and routes are extracted. Warnings are always shown, the
rest only on request.
-/

namespace ProtoRoutes

/-- How important a record is. -/
inductive LogLevel where
  | debug | warning
  deriving DecidableEq, Repr

/-- A level by name. -/
def LogLevel.text : LogLevel → String
  | debug => "DEBUG"
  | warning => "WARNING"

/-- Something that happened. -/
inductive LogRecord where
  | parsing (file : String) (depth : Nat)
  | cacheHit (file : String)
  | importSkipped (path : String)
  | importFailed (warning : String)
  | ruleDeferred (deferral : Grammar.Deferral)
  | parsed (services messages enums imports : Nat)
  | extracted (routes : Nat)

namespace LogRecord

/-- How important a record is. -/
def level : LogRecord → LogLevel
  | importFailed _ => .warning
  | _ => .debug

/-- The part of the program that a record comes from. -/
def origin : LogRecord → String
  | ruleDeferred _ | parsed _ _ _ _ => "protoc_rest.parser.proto_ast_parser"
  | extracted _ => "protoc_rest.extractor"
  | _ => "protoc_rest.parser.proto_parser"

/-- What happened, in words. -/
def text : LogRecord → String
  | parsing file depth => s!"Parsing {file} (depth {depth})"
  | cacheHit file => "Cache hit for " ++ file
  | importSkipped path => "Skipping annotation import " ++ path
  | importFailed warning => warning
  | ruleDeferred d => "Deferring invalid HTTP rule on " ++ d.method ++
    ": Invalid HTTP annotation: " ++
      d.error.text
  | parsed services messages enums imports =>
    s!"Parsed {services} service(s), {messages} message(s), {enums} enum(s), {imports} import(s)"
  | extracted routes => s!"Extracted {routes} route(s)"

/-- The line of a record. -/
def line (r : LogRecord) : String :=
  r.level.text ++ " " ++ r.origin ++ ": " ++ r.text ++ "\n"

end LogRecord

end ProtoRoutes
