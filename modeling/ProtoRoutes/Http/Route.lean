import ProtoRoutes.Http.Template
import ProtoRoutes.Schema.File
import ProtoRoutes.Text.Quoted

/-!
# ProtoRoutes.Http.Route

Routes: a verb and a path template that lead to a method of a service, with the parameters and the
body of its requests.
-/

namespace ProtoRoutes

open Text (quoted)

/-- The types of parameters. -/
inductive ParameterType where
  | string | integer | float | boolean
  deriving DecidableEq, Repr

namespace ParameterType

/-- A type of parameters by name. -/
def text : ParameterType → String
  | string => "string"
  | integer => "integer"
  | float => "float"
  | boolean => "boolean"

/-- The type that the name of a parameter suggests, whatever its case. -/
def infer (name : String) : ParameterType :=
  let lowered := Text.lower name.toList
  let has (word : String) := Text.hasPart word.toList lowered
  if lowered = "id".toList || Text.endsWith "_id".toList lowered then string
  else if has "count" || has "size" || has "limit" then integer
  else if has "rate" || has "ratio" then float
  else if has "enabled" || has "active" then boolean
  else string

end ParameterType

/-- A parameter of a route. Those in the path are required, those in the query are not. -/
structure Parameter where
  name : String
  type : ParameterType
  deriving DecidableEq, Repr

/-- A parameter whose name tells its type. -/
def Parameter.ofName (name : String) : Parameter :=
  ⟨name, .infer name⟩

/-- What the body of a request holds. -/
inductive RequestBody where
  | entire
  | field (name : String)
  deriving DecidableEq, Repr

/-- A route. -/
structure Route where
  service : String
  method : String
  http : HttpMethod
  path : String
  pathParams : List Parameter
  queryParams : List Parameter
  body : Option RequestBody
  input : TypeRef
  output : TypeRef
  deriving DecidableEq, Repr

namespace Route

/-- A name for what the route leads to. -/
def operationId (r : Route) : String :=
  r.service ++ "_" ++ r.method

/-- What tells routes apart: the verb and the path template. -/
def signature (r : Route) : String :=
  r.http.verb ++ " " ++ r.path

end Route

/-- Why routes cannot be extracted or are refused. -/
inductive RouteError where
  | rule (e : RuleError)
  | customVerb (verb place : String)
  | bodyNotAllowed (verb operation : String)
  | template (path : String) (e : Template.Error)
  | conflict (first second : String)
  deriving DecidableEq, Repr

namespace RouteError

/-- What is wrong with an annotation, in words, for the errors that are about one. -/
def annotationText? : RouteError → Option String
  | rule e => some e.text
  | customVerb verb place =>
    some ("Custom HTTP method " ++ quoted verb ++ " on " ++ place ++ " is not allowed")
  | bodyNotAllowed verb operation =>
    some (verb ++ " route " ++ operation ++ " cannot have a request body")
  | _ => none

/-- The sentence that reports an error. -/
def message : RouteError → String
  | template path e => e.text ++ " in path " ++ quoted path
  | conflict first second => "Conflicting HTTP routes: " ++ first ++ " and " ++ second
  | e => "Invalid HTTP annotation: " ++ e.annotationText?.getD ""

end RouteError

end ProtoRoutes
