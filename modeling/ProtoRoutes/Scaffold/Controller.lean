import ProtoRoutes.Scaffold.Interface

/-!
# ProtoRoutes.Scaffold.Controller

The controller module of a service: a class with a table of routes and a handler for each of them. A
handler puts its arguments into one request and passes it to the interface. `Controller.ofService`
says what the class holds, `Controller.render` writes it.
-/

namespace ProtoRoutes.Scaffold

/-- The annotation of a parameter whose type has a name. -/
def annotationOf (typeName : String) : String :=
  match typeName with
  | "integer" => "int"
  | "float" => "float"
  | "boolean" => "bool"
  | _ => "str"

/-- An argument of a handler, and the key of the request that it is put under. -/
structure Argument where
  name : String
  key : String
  annotation : String
  deriving DecidableEq, Repr

/-- The body argument of a handler, and what it holds. -/
structure BodyArgument where
  name : String
  body : RequestBody
  deriving DecidableEq, Repr

/-- A handler. -/
structure Handler where
  verb : String
  path : String
  name : String
  /-- The method of the interface that it calls. -/
  target : String
  pathArgs : List Argument
  bodyArg : Option BodyArgument
  queryArgs : List Argument
  deriving DecidableEq, Repr

namespace Handler

/-- The name of the handler for the `count`-th route to a method. -/
def nameFor (method : String) (count : Nat) : String :=
  let base := "handle_" ++ snake method
  if 1 < count then s!"{base}_{count}" else base

/-- The keys of the path arguments: the variables of the template. -/
def pathKeys (path : String) : List String :=
  (Template.boundVariables path.toList).map fun v => String.ofList (Text.trim v)

/-- Arguments for parameters with keys. -/
def argumentsFor (params : List Parameter) (keys names : List String) : List Argument :=
  (params.zip (keys.zip names)).map fun (p, key, name) => ⟨name, key, annotationOf p.type.text⟩

/-- The handler for the `count`-th route to a method. Path arguments are named first, then the body,
then those query arguments that are not in the path. -/
def ofRoute (r : Route) (count : Nat) : Handler :=
  let keys := pathKeys r.path
  let pathParams := r.pathParams.take keys.length
  let (pathNames, taken) := argumentNames handlerLocals (pathParams.map (·.name))
  let bodyArg := r.body.map (BodyArgument.mk (argumentName taken "body"))
  let taken := bodyArg.toList.map (·.name) ++ taken
  let queryParams := r.queryParams.filter fun q => !(r.pathParams.map (·.name)).contains q.name
  let queryNames := queryParams.map (·.name)
  let (queryArgs, _) := argumentNames taken queryNames
  { verb := r.http.verb
    path := r.path
    name := nameFor r.method count
    target := targetName r.method
    pathArgs := argumentsFor pathParams keys pathNames
    bodyArg
    queryArgs := argumentsFor queryParams queryNames queryArgs }

/-- The handlers for routes, behind those for the methods in `targets`. -/
def ofRoutes (targets : List String) : List Route → List Handler
  | [] => []
  | r :: rest =>
    let target := targetName r.method
    ofRoute r (targets.count target + 1) :: ofRoutes (target :: targets) rest

/-! ### Text -/

/-- The row of a handler in the table of routes. -/
def row (h : Handler) : String :=
  "            (\"" ++ h.verb ++ "\", \"" ++ h.path ++ "\", \"" ++ h.name ++ "\"),\n"

/-- The key of a request. -/
def requestKey (key : String) : String :=
  "request[\"" ++ key ++ "\"]"

/-- The line of the signature for a path argument. -/
def pathParameterLine (a : Argument) : String :=
  "        " ++ a.name ++ ": " ++ a.annotation ++ ",\n"

/-- The line of the signature for the body argument. -/
def bodyParameterLine (b : BodyArgument) : String :=
  let annotation := match b.body with
    | .entire => "Dict[str, Any]"
    | .field _ => "Any"
  "        " ++ b.name ++ ": " ++ annotation ++ ",\n"

/-- The line of the signature for a query argument. -/
def queryParameterLine (a : Argument) : String :=
  "        " ++ a.name ++ ": Optional[" ++ a.annotation ++ "] = None,\n"

/-- The line that puts the body into the request. -/
def bodyLine (b : BodyArgument) : String :=
  match b.body with
  | .entire => "        request.update(" ++ b.name ++ ")\n"
  | .field key => "        " ++ requestKey key ++ " = " ++ b.name ++ "\n"

/-- The line that puts a path argument into the request. -/
def pathLine (a : Argument) : String :=
  "        " ++ requestKey a.key ++ " = " ++ a.name ++ "\n"

/-- The lines that put a query argument into the request if it is given. -/
def queryLines (a : Argument) : String :=
  "        if " ++ a.name ++ " is not None:\n" ++
  "            " ++ requestKey a.key ++ " = " ++ a.name ++ "\n"

/-- The text of a handler, with an empty line in front of it. -/
def render (h : Handler) : String :=
  "\n    def " ++ h.name ++ "(\n        self,\n" ++
  String.join (h.pathArgs.map pathParameterLine) ++
  String.join (h.bodyArg.toList.map bodyParameterLine) ++
  String.join (h.queryArgs.map queryParameterLine) ++
  "    ) -> Dict[str, Any]:\n" ++
  Interface.docLine "        " (h.verb ++ " " ++ h.path) ++
  "        request: Dict[str, Any] = \x7b\x7d\n" ++
  String.join (h.bodyArg.toList.map bodyLine) ++
  String.join (h.pathArgs.map pathLine) ++
  String.join (h.queryArgs.map queryLines) ++
  "        return self.service." ++ h.target ++ "(request)\n"

end Handler

/-- The controller module of a service. -/
structure Controller where
  name : String
  interface : String
  /-- The module that the interface is in. -/
  interfaceModule : String
  handlers : List Handler
  deriving DecidableEq, Repr

namespace Controller

/-- The controller of a service with routes. -/
def ofService (s : Service) (routes : List Route) : Controller :=
  ⟨s.name ++ "Controller", interfaceName s, stem s.name ++ "_service",
    Handler.ofRoutes [] (routesOf s routes)⟩

/-- The text of a controller module. -/
def render (source : String) (c : Controller) : String :=
  Interface.banner source ++
  "from typing import Any, Dict, List, Optional, Tuple\n\n" ++
  "from " ++ c.interfaceModule ++ " import " ++ c.interface ++ "\n\n\n" ++
  "class " ++ c.name ++ ":\n" ++
  "    def __init__(self, service: " ++ c.interface ++ "):\n" ++
  "        self.service = service\n\n" ++
  "    def routes(self) -> List[Tuple[str, str, str]]:\n" ++
  "        return [\n" ++
  String.join (c.handlers.map Handler.row) ++
  "        ]\n" ++
  String.join (c.handlers.map Handler.render)

end Controller

end ProtoRoutes.Scaffold
