import ProtoRoutes.Http.Extract

/-!
# ProtoRoutes.Http.Check

What a list of routes must satisfy: no two have the same signature, verbs and bodies go together,
and the path templates are well formed. A conflict is reported before anything else.
-/

namespace ProtoRoutes.Route

/-- A route as a conflict shows it. -/
def shown (r : Route) : String :=
  r.operationId ++ " (" ++ r.signature ++ ")"

/-- The first route with the signature of an earlier one, behind the earliest such route. -/
def conflict? (seen : List Route) : List Route → Option (Route × Route)
  | [] => none
  | r :: rest =>
    match seen.find? (·.signature = r.signature) with
    | some earlier => some (earlier, r)
    | none => conflict? (seen ++ [r]) rest

/-- Checks that verb and body of a route go together, and that its verb is allowed. -/
def checkMethod (settings : ExtractorSettings) (r : Route) : Except RouteError Unit :=
  if (r.http = .get || r.http = .delete) && r.body.isSome then
    .error (.bodyNotAllowed r.http.verb r.operationId)
  else if r.http.custom && !settings.allowCustomMethods then
    .error (.customVerb r.http.verb r.operationId)
  else .ok ()

/-- Checks one route. -/
def checkOne (settings : ExtractorSettings) (r : Route) : Except RouteError Unit := do
  if settings.validateHttpMethods then checkMethod settings r
  checkTemplate r.path

/-- Checks a list of routes. -/
def check (settings : ExtractorSettings) (routes : List Route) : Except RouteError Unit :=
  match conflict? [] routes with
  | some (first, second) => .error (.conflict first.shown second.shown)
  | none => routes.forM (checkOne settings)

/-- The routes of a file, checked. -/
def extract (settings : ExtractorSettings) (f : SchemaFile) : Except RouteError (List Route) := do
  let routes ← ofFile settings f
  check settings routes
  .ok routes

end ProtoRoutes.Route
