import ProtoRoutes.Scaffold.Controller
import ProtoRoutes.Settings.Basic

/-!
# ProtoRoutes.Scaffold.Modules

The modules that are written for a schema file: for each service with routes an interface and a
controller, named for the stem of the service. Two services may not have the same stem.
-/

namespace ProtoRoutes.Scaffold

/-- Stems with the services that have claimed them. -/
abbrev Claims := List (String × String)

/-- Two services with one stem. -/
structure StemConflict where
  stem : String
  first : String
  second : String
  deriving DecidableEq, Repr

/-- The sentence that reports a conflict. -/
def StemConflict.message (c : StemConflict) : String :=
  "Services " ++ c.first ++ " and " ++ c.second ++ " both generate " ++
    c.stem ++ "_service.py / " ++ c.stem ++ "_controller.py"

namespace Claims

/-- The claims with an owner of a stem. A stem that is there keeps its place. -/
def put (claims : Claims) (stem owner : String) : Claims :=
  if (claims.lookup stem).isSome then
    claims.map fun (k, old) => if k = stem then (k, owner) else (k, old)
  else claims ++ [(stem, owner)]

/-- The claims with other ones put into them. -/
def update (claims others : Claims) : Claims :=
  others.foldl (fun claims e => put claims e.1 e.2) claims

/-- The owner of a stem: a service of the file at hand, if it has a name, or else one of an earlier
file. -/
def owner? (earlier own : Claims) (stem : String) : Option String :=
  ((own.lookup stem).filter (· ≠ "")).or (earlier.lookup stem)

end Claims

/-- The services of a file that routes lead to. -/
def routedServices (f : SchemaFile) (routes : List Route) : List Service :=
  f.services.filter fun s => !(routesOf s routes).isEmpty

/-- A step that works on the claims of all files. What it has done to them before an error stays. -/
abbrev Claiming := EStateM StemConflict Claims

/-- Gathers the stems of services of one file, behind those in `own`. -/
def gatherStems (own : Claims) : List Service → Claiming Claims
  | [] => pure own
  | s :: rest => do
    match Claims.owner? (← get) own (stem s.name) with
    | some owner => throw ⟨stem s.name, owner, s.name⟩
    | none => gatherStems (Claims.put own (stem s.name) s.name) rest

/-- Claims the stems of the routed services of a file, after all of them have been gathered. -/
def claimServices (f : SchemaFile) (routes : List Route) : Claiming (List Service) := do
  let own ← gatherStems [] (routedServices f routes)
  modify (Claims.update · own)
  pure (routedServices f routes)

/-- The routed services of a file and the claims with their stems, unless there is a conflict. -/
def claim (claims : Claims) (f : SchemaFile) (routes : List Route) :
    Except StemConflict (List Service × Claims) :=
  match claimServices f routes claims with
  | .ok services claims => .ok (services, claims)
  | .error c _ => .error c

/-- A module: its file name and its text. -/
structure Module where
  fileName : String
  text : String
  deriving DecidableEq, Repr

/-- The modules of a service. -/
def modulesOf (settings : GeneratorSettings) (source : String) (routes : List Route) (s : Service) :
    List Module :=
  let interface : Module :=
    ⟨stem s.name ++ "_service.py", (Interface.ofService s routes).render source⟩
  let controller : Module :=
    ⟨stem s.name ++ "_controller.py", (Controller.ofService s routes).render source⟩
  (if settings.generateServiceInterfaces then [interface] else []) ++
    (if settings.generateControllers then [controller] else [])

/-- The modules of a file. -/
def modules (settings : GeneratorSettings) (source : String) (f : SchemaFile)
    (routes : List Route) : Except StemConflict (List Module) :=
  (claim [] f routes).map fun (services, _) => services.flatMap (modulesOf settings source routes)

end ProtoRoutes.Scaffold
