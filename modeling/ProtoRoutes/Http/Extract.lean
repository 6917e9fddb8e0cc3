import ProtoRoutes.Http.Route
import ProtoRoutes.Schema.Lookup
import ProtoRoutes.Settings.Basic

/-!
# ProtoRoutes.Http.Extract

From a schema file to its routes: one for each binding of each method with an HTTP rule. The first
method that fails ends the extraction with its error.
-/

namespace ProtoRoutes

/-- The HTTP rule of a method: the one that was decoded when the file was read, or else the first
option that holds one. -/
def Method.httpRule (m : Method) : Except RouteError (Option HttpRule) :=
  match m.rule with
  | some rule => .ok (some rule)
  | none =>
    match m.options.find? HttpRule.isHttpOption with
    | none => .ok none
    | some o => ((HttpRule.decode o.value).map some).mapError .rule

namespace Route

/-- What the body of requests with a verb holds. Only `POST`, `PUT`, `PATCH` and the like have one
without being told. -/
def bodyFor (http : HttpMethod) (body : Option String) : Option RequestBody :=
  let field := body.getD ""
  if http = .get || http = .delete then none
  else if field.isEmpty then if http.custom then none else some .entire
  else if field = "*" then some .entire
  else some (.field field)

/-- The query parameters of a route with these path parameters and this input message. -/
def queryFor (settings : ExtractorSettings) (pathNames : List String) (input : Option Message) :
    List Parameter :=
  if settings.inferQueryParams then
    let declared := (input.map Message.fieldNames).getD []
    let names := settings.commonQueryParams.filter fun n =>
      !settings.strictQueryParams || (declared.contains n && !pathNames.contains n)
    names.map .ofName
  else []

/-- Checks a path template. -/
def checkTemplate (path : String) : Except RouteError Unit :=
  (Template.check path.toList).mapError (.template path)

/-- The path parameters of a template. -/
def pathParamsOf (path : String) : Except RouteError (List Parameter) :=
  ((Template.parameterNames path.toList).mapError (.template path)).map (·.map .ofName)

/-- The route of one binding of a method. -/
def build (settings : ExtractorSettings) (input : Option Message) (s : Service) (m : Method)
    (b : HttpBinding) : Except RouteError Route := do
  if b.method.custom && !settings.allowCustomMethods then
    .error (.customVerb b.method.verb (s.name ++ "." ++ m.name))
  checkTemplate b.path
  let pathParams ← pathParamsOf b.path
  let queryParams := queryFor settings (pathParams.map (·.name)) input
  .ok ⟨s.name, m.name, b.method, b.path, pathParams, queryParams, bodyFor b.method b.body,
    m.input, m.output⟩

/-- The routes of a method. -/
def ofMethod (settings : ExtractorSettings) (f : SchemaFile) (s : Service) (m : Method) :
    Except RouteError (List Route) := do
  match ← m.httpRule with
  | none => .ok []
  | some rule =>
    (rule.primary :: rule.additional).mapM (build settings (f.findMessage? m.input.fullName) s m)

/-- The routes of a service. -/
def ofService (settings : ExtractorSettings) (f : SchemaFile) (s : Service) :
    Except RouteError (List Route) :=
  (s.methods.mapM (ofMethod settings f s)).map List.flatten

/-- The routes of a file. -/
def ofFile (settings : ExtractorSettings) (f : SchemaFile) : Except RouteError (List Route) :=
  (f.services.mapM (ofService settings f)).map List.flatten

end Route

end ProtoRoutes
