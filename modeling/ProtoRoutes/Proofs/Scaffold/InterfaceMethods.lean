import Mathlib.Data.List.Nodup
import ProtoRoutes.Http.Check
import ProtoRoutes.Proofs.Grammar.Strict
import ProtoRoutes.Proofs.Http.Templates
import ProtoRoutes.Scaffold.Controller

/-!
# ProtoRoutes.Proofs.Scaffold.InterfaceMethods

The methods of an interface against those of its service. In a file that was read in strict mode the
routes come in blocks, one for each method of each service, and a block is what a filter by name
finds again. So the interface has a method for each method of the service that a route leads to, in
their order. The names of these methods are in snake case and different only if no two names are
written alike: `rpc Get` and `rpc get` are two methods `get` of the interface, and a handler that
calls one of them calls the other.
-/

namespace ProtoRoutes

/-! ### Blocks of routes -/

/-- Lists that belong to different keys are found again in what they are joined to. -/
theorem eq_map_filter_flatten {α β κ : Type} [DecidableEq κ] {keyOf : α → κ} {key : β → κ}
    {as : List α}
    {lists : List (List β)} (hlists : List.Forall₂ (fun a l => ∀ b ∈ l, key b = keyOf a) as lists)
    (hkeys : (as.map keyOf).Nodup) :
    lists = as.map fun a => lists.flatten.filter (key · = keyOf a) := by
  induction hlists with
  | nil => rfl
  | @cons a l as lists hl hlists ih =>
      obtain ⟨hfresh, hkeys⟩ := List.nodup_cons.mp hkeys
      have own : l.filter (key · = keyOf a) = l := List.filter_eq_self.mpr fun b hb => by
        simpa using hl b hb
      have behind : lists.flatten.filter (key · = keyOf a) = [] := by
        refine List.filter_eq_nil_iff.mpr fun b hb hkey => hfresh ?_
        obtain ⟨l', hl', hb⟩ := List.mem_flatten.mp hb
        obtain ⟨a', ha', hkey'⟩ := exists_of_mem_forall₂ hlists hl'
        rw [← of_decide_eq_true hkey, hkey' b hb]
        exact List.mem_map_of_mem ha'
      have others : ∀ a' ∈ as, (l ++ lists.flatten).filter (key · = keyOf a') =
          lists.flatten.filter (key · = keyOf a') := by
        intro a' ha'
        have none : l.filter (key · = keyOf a') = [] := by
          refine List.filter_eq_nil_iff.mpr fun b hb hkey => hfresh ?_
          rw [← hl b hb, of_decide_eq_true hkey]
          exact List.mem_map_of_mem ha'
        rw [List.filter_append, none, List.nil_append]
      rw [List.flatten_cons, List.map_cons, List.filter_append, own, behind, List.append_nil,
        List.map_congr_left others, ← ih hkeys]

namespace Route

variable {settings : ExtractorSettings} {f : SchemaFile} {s : Service} {m : Method}
    {routes : List Route}

theorem ofMethod_leads (hroutes : ofMethod settings f s m = .ok routes) :
    ∀ r ∈ routes, r.service = s.name ∧ r.method = m.name ∧ r.input = m.input ∧
      r.output = m.output := by
  intro r hr
  obtain ⟨b, hbuild⟩ := exists_build_of_mem_ofMethod hroutes hr
  obtain ⟨-, -, params, -, rfl⟩ := build_eq_ok hbuild
  exact ⟨rfl, rfl, rfl, rfl⟩

/-- The routes to a service of a valid file are those that the service was made into. -/
theorem ofService_eq_routesOf (hvalid : f.Valid) (hroutes : ofFile settings f = .ok routes)
    (hs : s ∈ f.services) : ofService settings f s = .ok (Scaffold.routesOf s routes) := by
  obtain ⟨lists, hlists, rfl⟩ := exists_lists_of_flatten hroutes
  have names : (f.services.map (·.name)).Nodup :=
    (List.nodup_append.mp (List.nodup_append.mp hvalid.scope).1).1
  have keys : List.Forall₂ (fun s' l => ∀ r ∈ l, r.service = s'.name) f.services lists := by
    refine hlists.imp fun s' l hl r hr => ?_
    obtain ⟨m, -, ofMethod, hmethod, hr⟩ := exists_of_mem_flatten hl hr
    exact (ofMethod_leads hmethod r hr).1
  rw [eq_map_filter_flatten keys names, List.forall₂_map_right_iff, List.forall₂_same] at hlists
  exact hlists s hs

/-- The routes to a service of a valid file are joined from the routes to each of its methods, in
their order. -/
theorem ofMethod_eq_filter (hvalid : f.Valid) (hroutes : ofFile settings f = .ok routes)
    (hs : s ∈ f.services) :
    let blocks := s.methods.map fun m => (Scaffold.routesOf s routes).filter (·.method = m.name)
    Scaffold.routesOf s routes = blocks.flatten ∧
      ∀ m ∈ s.methods, ofMethod settings f s m =
        .ok ((Scaffold.routesOf s routes).filter (·.method = m.name)) := by
  obtain ⟨lists, hlists, hjoined⟩ :=
    exists_lists_of_flatten (ofService_eq_routesOf hvalid hroutes hs)
  have keys : List.Forall₂ (fun m l => ∀ r ∈ l, r.method = m.name) s.methods lists :=
    hlists.imp fun m l hl r hr => (ofMethod_leads hl r hr).2.1
  have blocks := eq_map_filter_flatten keys (hvalid.services s hs)
  rw [← hjoined] at blocks
  refine ⟨blocks ▸ hjoined, ?_⟩
  rwa [blocks, List.forall₂_map_right_iff, List.forall₂_same] at hlists

end Route

namespace Scaffold

/-! ### First routes -/

theorem firstRoutes_append_of_seen {seen : List String} {block : List Route}
    (hseen : ∀ r ∈ block, r.method ∈ seen) (rest : List Route) :
    firstRoutes seen (block ++ rest) = firstRoutes seen rest := by
  induction block with
  | nil => rfl
  | cons r block ih =>
      have hr : seen.contains r.method = true := by simpa using hseen r List.mem_cons_self
      rw [List.cons_append, firstRoutes, if_pos hr,
        ih fun q hq => hseen q (List.mem_cons_of_mem r hq)]

/-- Of blocks for different methods, the first routes are the heads. -/
theorem firstRoutes_flatten {methods : List Method} {blocks : List (List Route)}
    (hblocks : List.Forall₂ (fun m l => ∀ r ∈ l, r.method = m.name) methods blocks)
    (hnames : (methods.map (·.name)).Nodup) {seen : List String}
    (hseen : ∀ m ∈ methods, m.name ∉ seen) :
    firstRoutes seen blocks.flatten = blocks.filterMap List.head? := by
  induction hblocks generalizing seen with
  | nil => rfl
  | @cons m block methods blocks hblock _ ih =>
      obtain ⟨hfresh, hnames⟩ := List.nodup_cons.mp hnames
      have later : ∀ n ∈ methods, n.name ∉ seen := fun n hn => hseen n (List.mem_cons_of_mem m hn)
      cases block with
      | nil => exact ih hnames later
      | cons r block =>
          have hr : r.method = m.name := hblock r List.mem_cons_self
          have new : ¬ seen.contains r.method = true := by
            simpa [hr] using hseen m List.mem_cons_self
          have same : ∀ q ∈ block, q.method ∈ r.method :: seen := by
            intro q hq
            rw [hblock q (List.mem_cons_of_mem r hq), hr]
            exact List.mem_cons_self
          have apart : ∀ n ∈ methods, n.name ∉ r.method :: seen := by
            intro n hn hmem
            rcases List.mem_cons.mp hmem with heq | hmem
            · exact hfresh (List.mem_map.mpr ⟨n, hn, heq.trans hr⟩)
            · exact later n hn hmem
          rw [List.flatten_cons, List.cons_append, firstRoutes, if_neg new,
            firstRoutes_append_of_seen same,
            ih hnames apart]
          rfl

/-! ### Routed methods -/

/-- The methods of a service that a route leads to. -/
def routedMethods (s : Service) (routes : List Route) : List Method :=
  s.methods.filter fun m => (routesOf s routes).any (·.method = m.name)

/-- The method of an interface for a method of a service. -/
def InterfaceMethod.ofMethod (m : Method) : InterfaceMethod :=
  ⟨targetName m.name, m.name, m.input.fullName, m.output.fullName⟩

/-- The methods of an interface that a handler calls: all those with the name that it calls. -/
def Interface.calledBy (i : Interface) (h : Handler) : List InterfaceMethod :=
  i.methods.filter (·.name = h.target)

/-- Routed methods with the same name in the interface have the same name. -/
def Separate (s : Service) (routes : List Route) : Prop :=
  ∀ m ∈ routedMethods s routes, ∀ n ∈ routedMethods s routes,
    targetName m.name = targetName n.name → m.name = n.name

section Extracted

variable {settings : ExtractorSettings} {f : SchemaFile} {s : Service} {routes : List Route}

theorem interface_methods_eq (hvalid : f.Valid) (hroutes : Route.ofFile settings f = .ok routes)
    (hs : s ∈ f.services) :
    (Interface.ofService s routes).methods =
      (routedMethods s routes).map InterfaceMethod.ofMethod := by
  obtain ⟨hjoined, hblocks⟩ := Route.ofMethod_eq_filter hvalid hroutes hs
  have keys : List.Forall₂ (fun m l => ∀ r ∈ l, r.method = m.name) s.methods
      (s.methods.map fun m => (routesOf s routes).filter (·.method = m.name)) := by
    rw [List.forall₂_map_right_iff, List.forall₂_same]
    exact fun m hm r hr => (Route.ofMethod_leads (hblocks m hm) r hr).2.1
  have first : firstRoutes [] (routesOf s routes) =
      s.methods.filterMap fun m => (routesOf s routes).find? (·.method = m.name) := by
    rw [hjoined, firstRoutes_flatten keys (hvalid.services s hs) (by simp), List.filterMap_map,
      ← hjoined]
    exact List.filterMap_congr fun m _ => List.head?_filter
  show (firstRoutes [] (routesOf s routes)).map InterfaceMethod.ofRoute = _
  rw [first, List.map_filterMap, routedMethods, ← List.filterMap_eq_map, List.filterMap_filter]
  refine List.filterMap_congr fun m hm => ?_
  rw [← List.isSome_find?]
  cases hfind : (routesOf s routes).find? (·.method = m.name) with
  | none => rfl
  | some r =>
      have hr : r ∈ (routesOf s routes).filter (·.method = m.name) :=
        List.mem_filter.mpr ⟨List.mem_of_find?_eq_some hfind, by simpa using List.find?_some hfind⟩
      obtain ⟨-, hmethod, hinput, houtput⟩ := Route.ofMethod_leads (hblocks m hm) r hr
      simp [InterfaceMethod.ofRoute, InterfaceMethod.ofMethod, hmethod, hinput, houtput]

theorem nodup_routedNames (hvalid : f.Valid) (hs : s ∈ f.services) :
    ((routedMethods s routes).map (·.name)).Nodup :=
  (hvalid.services s hs).sublist (List.filter_sublist.map _)

/-- Every route to a service leads to one of its methods. -/
theorem method_mem_routedNames (hvalid : f.Valid) (hroutes : Route.ofFile settings f = .ok routes)
    (hs : s ∈ f.services) {r : Route} (hr : r ∈ routesOf s routes) :
    r.method ∈ (routedMethods s routes).map (·.name) := by
  have hblock := hr
  rw [(Route.ofMethod_eq_filter hvalid hroutes hs).1, List.mem_flatten] at hblock
  obtain ⟨block, hblock, hmem⟩ := hblock
  obtain ⟨m, hm, rfl⟩ := List.mem_map.mp hblock
  have hname : r.method = m.name := of_decide_eq_true (List.mem_filter.mp hmem).2
  refine List.mem_map.mpr ⟨m, List.mem_filter.mpr ⟨hm, ?_⟩, hname.symm⟩
  exact List.any_eq_true.mpr ⟨r, hr, decide_eq_true hname⟩

theorem separate_iff : Separate s routes ↔
    ∀ a ∈ (routedMethods s routes).map (·.name), ∀ b ∈ (routedMethods s routes).map (·.name),
      targetName a = targetName b → a = b := by
  simp [Separate]

theorem nodup_interface_names_iff (hvalid : f.Valid)
    (hroutes : Route.ofFile settings f = .ok routes) (hs : s ∈ f.services) :
    ((Interface.ofService s routes).methods.map (·.name)).Nodup ↔ Separate s routes := by
  have names : (Interface.ofService s routes).methods.map (·.name) =
      ((routedMethods s routes).map (·.name)).map targetName := by
    rw [interface_methods_eq hvalid hroutes hs, List.map_map, List.map_map]
    rfl
  rw [names, List.nodup_map_iff_inj_on (nodup_routedNames hvalid hs), separate_iff]

/-! ### Calls -/

/-- What holds of the routes and the names that their handlers call. -/
theorem forall₂_target_iff {P : Route → String → Prop} (targets : List String)
    (routes : List Route) :
    List.Forall₂ (fun r h => P r h.target) routes (Handler.ofRoutes targets routes) ↔
      ∀ r ∈ routes, P r (targetName r.method) := by
  induction routes generalizing targets with
  | nil => simp [Handler.ofRoutes]
  | cons r routes ih =>
      rw [Handler.ofRoutes, List.forall₂_cons, ih, List.forall_mem_cons]
      rfl

/-- The methods of the service behind the methods of the interface with some name. -/
theorem called_eq (hvalid : f.Valid) (hroutes : Route.ofFile settings f = .ok routes)
    (hs : s ∈ f.services) (target : String) :
    ((Interface.ofService s routes).methods.filter (·.name = target)).map (·.method) =
      ((routedMethods s routes).map (·.name)).filter (targetName · = target) := by
  rw [interface_methods_eq hvalid hroutes hs, List.filter_map, List.map_map, List.filter_map]
  rfl

theorem filter_eq_singleton {names : List String} (hnodup : names.Nodup) {a : String}
    (ha : a ∈ names)
    {p : String → Bool} (hp : ∀ b ∈ names, p b = true ↔ b = a) : names.filter p = [a] := by
  have same : names.filter p = names.filter (· == a) :=
    List.filter_congr fun b hb => by rw [Bool.eq_iff_iff, hp b hb, beq_iff_eq]
  rw [same, List.filter_beq, List.count_eq_one_of_mem hnodup ha]
  rfl

/-- Handlers call the methods of their own routes only if the names are kept apart. -/
theorem called_own_iff (hvalid : f.Valid) (hroutes : Route.ofFile settings f = .ok routes)
    (hs : s ∈ f.services) :
    (∀ r ∈ routesOf s routes, ((routedMethods s routes).map (·.name)).filter
      (targetName · = targetName r.method) = [r.method]) ↔ Separate s routes := by
  rw [separate_iff]
  constructor
  · intro hcalled a ha b hb heq
    obtain ⟨m, hm, rfl⟩ := List.mem_map.mp ha
    obtain ⟨r, hr, hname⟩ := List.any_eq_true.mp (List.mem_filter.mp hm).2
    have hname : r.method = m.name := of_decide_eq_true hname
    have hb :
        b ∈ ((routedMethods s routes).map (·.name)).filter (targetName · = targetName r.method) :=
      List.mem_filter.mpr ⟨hb, decide_eq_true (by rw [← heq, hname])⟩
    rw [hcalled r hr, List.mem_singleton] at hb
    rw [hb, hname]
  · intro hseparate r hr
    have hown := method_mem_routedNames hvalid hroutes hs hr
    refine filter_eq_singleton (nodup_routedNames hvalid hs) hown fun b hb => ?_
    rw [decide_eq_true_eq]
    exact ⟨hseparate b hb _ hown, congrArg targetName⟩

end Extracted

/-- **An interface has one method for each routed method of its service, and they have different
names unless two of these are alike in snake case.** Take a file that was read in strict mode, and
routes that were extracted from it. The methods of the interface are made, one by one and in order,
from the methods of the service that a route leads to, and every handler calls the name of its own
method. The names are pairwise different, and no handler calls a method of another route, if and
only if routed methods with different names also have different names in the interface. -/
theorem interface_methods_distinct_iff_separate {comments : Bool} {text : String} {f : SchemaFile}
    {settings : ExtractorSettings} {routes : List Route} {s : Service}
    (hread : Grammar.parse ⟨true, comments⟩ text = .ok f)
    (hroutes : Route.ofFile settings f = .ok routes) (hs : s ∈ f.services) :
    (Interface.ofService s routes).methods = (routedMethods s routes).map InterfaceMethod.ofMethod ∧
    (((Interface.ofService s routes).methods.map (·.name)).Nodup ↔ Separate s routes) ∧
    List.Forall₂ (fun r h => r.method ∈ ((Interface.ofService s routes).calledBy h).map (·.method))
      (routesOf s routes) (Controller.ofService s routes).handlers ∧
    (List.Forall₂
      (fun r h => ((Interface.ofService s routes).calledBy h).map (·.method) = [r.method])
      (routesOf s routes) (Controller.ofService s routes).handlers ↔ Separate s routes) := by
  have hvalid := Grammar.parse_valid hread
  simp only [Interface.calledBy, called_eq hvalid hroutes hs]
  refine ⟨interface_methods_eq hvalid hroutes hs, nodup_interface_names_iff hvalid hroutes hs,
    ?_, ?_⟩
  · refine (forall₂_target_iff (P := fun r target => r.method ∈
      ((routedMethods s routes).map (·.name)).filter (targetName · = target)) [] _).mpr
      fun r hr => ?_
    exact List.mem_filter.mpr ⟨method_mem_routedNames hvalid hroutes hs hr, decide_eq_true rfl⟩
  · exact (forall₂_target_iff (P := fun r target =>
      ((routedMethods s routes).map (·.name)).filter (targetName · = target) = [r.method])
        [] _).trans
      (called_own_iff hvalid hroutes hs)

/-- A service with two routed methods. -/
def pairOf (first second : String) : String :=
  "service S \x7b rpc " ++ first ++ "(A) returns (A) \x7b option (google.api.http) = " ++
  "\x7b get: \"/a\" \x7d; \x7d rpc " ++ second ++
  "(A) returns (A) \x7b option (google.api.http) = " ++
  "\x7b get: \"/b\" \x7d; \x7d \x7d"

/-- The first name is a keyword in snake case. -/
theorem interface_methods_distinct_keyword :
    ∃ f routes, Grammar.parse ⟨true, false⟩ (pairOf "Class" "G") = .ok f ∧
      Route.ofFile {} f = .ok routes ∧
      ∃ s ∈ f.services, (Interface.ofService s routes).methods.map (·.name) = ["class_", "g"] ∧
        List.Forall₂
          (fun r h => ((Interface.ofService s routes).calledBy h).map (·.method) = [r.method])
          (routesOf s routes) (Controller.ofService s routes).handlers := by
  obtain ⟨f, routes, hread, hroutes, s, hs, hnames⟩ :=
    @Grammar.exists_service_of_toOption _ _ _ ⟨true, false⟩
    (pairOf "Class" "G") (Route.ofFile {})
    (fun s routes => (Interface.ofService s routes).methods.map (·.name))
    ["class_", "g"] (by decide +kernel)
  obtain ⟨-, hnodup, -, hcalled⟩ := interface_methods_distinct_iff_separate hread hroutes hs
  exact ⟨f, routes, hread, hroutes, s, hs, hnames, hcalled.mpr (hnodup.mp (hnames ▸ by decide))⟩

/-- The routes pass every check, and the interface has two methods `g`. -/
theorem interface_methods_collide :
    ∃ f routes, Grammar.parse ⟨true, false⟩ (pairOf "G" "g") = .ok f ∧
      Route.extract {} f = .ok routes ∧
      ∃ s ∈ f.services, (Interface.ofService s routes).methods.map (·.name) = ["g", "g"] := by
  exact @Grammar.exists_service_of_toOption _ _ _ ⟨true, false⟩ (pairOf "G" "g") (Route.extract {})
    (fun s routes => (Interface.ofService s routes).methods.map (·.name)) ["g", "g"]
    (by decide +kernel)

end Scaffold

end ProtoRoutes
