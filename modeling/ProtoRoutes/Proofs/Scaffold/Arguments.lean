import ProtoRoutes.Proofs.Http.Templates
import ProtoRoutes.Scaffold.Controller

/-!
# ProtoRoutes.Proofs.Scaffold.Arguments

Every handler has an argument for each path parameter of its route, in the same order. The
parameters and the keys of a handler are read from the template in different ways; since both
readings give one item for each group, pairing them drops nothing and puts every argument under its
own key.
-/

namespace ProtoRoutes.Scaffold

open Text (trim replaceChar)

theorem length_argumentNames (taken names : List String) :
    (argumentNames taken names).1.length = names.length := by
  induction names generalizing taken with
  | nil => rfl
  | cons name names ih =>
      simp only [argumentNames, List.length_cons]
      rw [ih]

namespace Handler

/-- An argument passes on a parameter: its key is the variable that the parameter is named after,
and its annotation fits the type. -/
def Binds (p : Parameter) (a : Argument) : Prop :=
  p.name = String.ofList (replaceChar '.' '_' a.key.toList) ∧
    a.annotation = annotationOf p.type.text

/-- A handler passes on the path parameters of a route, all of them and each under its own key. -/
structure Serves (r : Route) (h : Handler) : Prop where
  path : h.path = r.path
  keys : h.pathArgs.map (·.key) = pathKeys r.path
  names : h.pathArgs.map (·.name) = (argumentNames handlerLocals (r.pathParams.map (·.name))).1
  params : List.Forall₂ Binds r.pathParams h.pathArgs

/-! ### Pairing -/

/-- Nothing is lost between parameters, keys and names that belong to each other one by one. -/
theorem argumentsFor_aligned {fits : Parameter → String → Prop} {params : List Parameter}
    {keys names : List String} (hkeys : List.Forall₂ fits params keys)
    (hnames : names.length = params.length) :
    (argumentsFor params keys names).map (·.key) = keys ∧
      (argumentsFor params keys names).map (·.name) = names ∧
      List.Forall₂ (fun p a => fits p a.key ∧ a.annotation = annotationOf p.type.text) params
        (argumentsFor params keys names) := by
  induction hkeys generalizing names with
  | nil =>
      obtain rfl : names = [] := List.length_eq_zero_iff.mp hnames
      exact ⟨rfl, rfl, .nil⟩
  | @cons p key params keys hfits _ ih =>
      cases names with
      | nil => cases hnames
      | cons name names =>
          obtain ⟨hkey, hname, hparams⟩ := ih (Nat.succ.inj hnames)
          exact ⟨congrArg (key :: ·) hkey, congrArg (name :: ·) hname, .cons ⟨hfits, rfl⟩ hparams⟩

theorem pathArgs_ofRoute {r : Route} (hlength : r.pathParams.length = (pathKeys r.path).length)
    (count : Nat) :
    (ofRoute r count).pathArgs = argumentsFor r.pathParams (pathKeys r.path)
      (argumentNames handlerLocals (r.pathParams.map (·.name))).1 := by
  -- There are as many keys as parameters, so that none is cut off.
  have all : r.pathParams.take (pathKeys r.path).length = r.pathParams := by
    rw [← hlength, List.take_length]
  show argumentsFor (r.pathParams.take (pathKeys r.path).length) _
    (argumentNames handlerLocals ((r.pathParams.take (pathKeys r.path).length).map (·.name))).1 = _
  rw [all]

/-! ### Handlers -/

/-- The parameters of an accepted template and the keys of its variables belong to each other. -/
theorem pathParams_pathKeys {r : Route} (hbuilt : r.Built) :
    List.Forall₂ (fun p key => p.name = String.ofList (replaceChar '.' '_' key.toList)) r.pathParams
      (pathKeys r.path) := by
  obtain ⟨hcheck, hparams⟩ := hbuilt
  obtain ⟨gs, hgs⟩ := Template.grouped_of_check hcheck
  rw [Route.pathParamsOf_eq hgs] at hparams
  rw [← Except.ok.inj hparams, pathKeys, hgs.boundVariables_eq, List.map_map,
    List.forall₂_map_left_iff,
    List.forall₂_map_right_iff, List.forall₂_same]
  -- Both sides come from the group `g` now.
  intro g _
  simp [Parameter.ofName, Template.parameterName, Template.variableOf]

theorem ofRoute_serves {r : Route} (hbuilt : r.Built) (count : Nat) :
    Serves r (ofRoute r count) := by
  have hpairs := pathParams_pathKeys hbuilt
  have hnames : (argumentNames handlerLocals (r.pathParams.map (·.name))).1.length =
      r.pathParams.length := by
    rw [length_argumentNames, List.length_map]
  obtain ⟨keys, names, params⟩ := argumentsFor_aligned hpairs hnames
  rw [← pathArgs_ofRoute hpairs.length_eq count] at keys names params
  exact ⟨rfl, keys, names, params⟩

/-- What holds of every route and its handler, whatever the number of the route. -/
theorem forall₂_ofRoutes {P : Route → Handler → Prop} {routes : List Route}
    (h : ∀ r ∈ routes, ∀ count, P r (ofRoute r count)) (targets : List String) :
    List.Forall₂ P routes (ofRoutes targets routes) := by
  induction routes generalizing targets with
  | nil => exact .nil
  | cons r routes ih =>
      exact .cons (h r List.mem_cons_self _) (ih (fun q hq => h q (List.mem_cons_of_mem r hq)) _)

end Handler

/-- The readings of a path template agree. An accepted template has a parameter and a variable for
each opening brace, and every parameter is named after its variable; so the handlers of a service,
one for each route that leads to it, pass on every path parameter of their routes under its own key.
-/
theorem path_readings_agree :
    (∀ path : String, Template.check path.toList = .ok () →
      ∃ params, Route.pathParamsOf path = .ok params ∧
        params.length = path.toList.count '{' ∧
        (Template.boundVariables path.toList).length = path.toList.count '{' ∧
        params.map (·.name) =
          (Template.boundVariables path.toList).map fun v =>
            String.ofList (replaceChar '.' '_' (trim v))) ∧
    (∀ settings f routes, Route.ofFile settings f = .ok routes → ∀ s,
      List.Forall₂ Handler.Serves (routesOf s routes)
        (Controller.ofService s routes).handlers) := by
  constructor
  · intro path hcheck
    obtain ⟨gs, hgs⟩ := Template.grouped_of_check hcheck
    refine ⟨_, Route.pathParamsOf_eq hgs, ?_, ?_, ?_⟩
    · rw [hgs.count_eq, List.length_map]
    · rw [hgs.count_eq, hgs.boundVariables_eq, List.length_map]
    · rw [hgs.boundVariables_eq, List.map_map, List.map_map]
      rfl
  · intro settings f routes hroutes s
    refine Handler.forall₂_ofRoutes (fun r hr count => ?_) []
    exact Handler.ofRoute_serves (Route.built_of_ofFile hroutes r (List.mem_filter.mp hr).1) count

/-- A service with a method whose template has blanks, a dot and a pattern in a group. -/
def library : Service :=
  ⟨"Library", [⟨"GetPage", ⟨"Page", none, false⟩, ⟨"Page", none, false⟩, [], [],
    some ⟨⟨.get, "/{ book.id = books/* }/{size}", none⟩, none, []⟩⟩], [], []⟩

/-- The parameters of this template are named `book_id` and `size`. -/
theorem path_readings_agree_library :
    (∃ params, Route.pathParamsOf "/{ book.id = books/* }/{size}" = .ok params ∧
      params.length = 2) ∧
    ∃ r, Route.ofFile { inferQueryParams := false } { SchemaFile.empty with services :=
      [library] } =
        .ok [r] ∧
      r.pathParams = [⟨"book_id", .string⟩, ⟨"size", .integer⟩] ∧
      List.Forall₂ Handler.Serves [r] (Controller.ofService library [r]).handlers := by
  obtain ⟨params, hparams, hlength, -⟩ :=
    path_readings_agree.1 "/{ book.id = books/* }/{size}" (by decide)
  have hroutes : Route.ofFile { inferQueryParams := false }
      { SchemaFile.empty with services := [library] } =
      .ok [⟨"Library", "GetPage", .get, "/{ book.id = books/* }/{size}",
        [⟨"book_id", .string⟩, ⟨"size", .integer⟩], [], none, ⟨"Page", none, false⟩,
        ⟨"Page", none, false⟩⟩] := by
    rfl
  exact ⟨⟨params, hparams, hlength⟩, _, hroutes, rfl, path_readings_agree.2 _ _ _ hroutes library⟩

end ProtoRoutes.Scaffold
