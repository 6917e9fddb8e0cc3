import Mathlib.Data.List.Nodup
import Mathlib.Data.List.Pairwise
import ProtoRoutes.Proofs.Http.TemplateLanguage

/-!
# ProtoRoutes.Proofs.Http.Checking

What the check of a list of routes says. It looks for a conflict first: a walk that keeps the routes
it has seen, all with different signatures, and stops at the first route whose signature is among
theirs. Only then does it look at the routes one by one. So a list is accepted if all of several
conditions hold, in whatever order the routes stand, and a conflict hides every other fault.

The routes that a file is extracted to meet all conditions on single routes already. What is left to
fail is that two of them, from anywhere in the file, have the same signature. The condition on
bodies tells the standard verbs `GET` and `DELETE` from custom verbs that are spelled like them, and
so does the extraction: what is spelled `GET` can have a body if it is a custom verb.
-/

namespace ProtoRoutes

/-- A list of checks passes if each of them does. -/
theorem forM_eq_ok_iff {ε α : Type} {f : α → Except ε Unit} {as : List α} :
    as.forM f = .ok () ↔ ∀ a ∈ as, f a = .ok () := by
  induction as with
  | nil => simp [pure, Except.pure]
  | cons a as ih =>
      rw [List.forall_mem_cons, ← ih]
      show (f a >>= fun _ => as.forM f) = _ ↔ _
      cases hhead : f a with
      | error e => simp [bind, Except.bind]
      | ok _ => simp [bind, Except.bind]

namespace Route

/-! ### Conflicts -/

/-- The routes that a conflict is about: `second` is the first route with the signature of one in
front of it, and `first` the earliest route with this signature. -/
inductive FirstConflict : List Route → Route → Route → Prop where
  | mk {front middle : List Route} {first second : Route} (back : List Route)
      (hsame : first.signature = second.signature)
      (hearliest : ∀ r ∈ front, r.signature ≠ second.signature)
      (hnew : ((front ++ first :: middle).map signature).Nodup) :
      FirstConflict (front ++ first :: middle ++ second :: back) first second

/-- A route with a new signature can join those with different ones. -/
theorem nodup_signatures_snoc {seen : List Route} {r : Route} (hseen : (seen.map signature).Nodup)
    (hnew : seen.find? (·.signature = r.signature) = none) :
      ((seen ++ [r]).map signature).Nodup := by
  have fresh : r.signature ∉ seen.map signature := by
    intro hmem
    obtain ⟨q, hq, hsame⟩ := List.mem_map.mp hmem
    simpa [hsame] using List.find?_eq_none.mp hnew q hq
  rw [List.map_append, List.map_singleton, ← List.concat_eq_append]
  exact hseen.concat fresh

/-- The walk comes to its end if no signature occurs twice. -/
theorem conflict?_eq_none_iff {seen routes : List Route} (hseen : (seen.map signature).Nodup) :
    conflict? seen routes = none ↔ ((seen ++ routes).map signature).Nodup := by
  induction routes generalizing seen with
  | nil => simpa [conflict?] using hseen
  | cons r routes ih =>
      rw [conflict?]
      cases hfind : seen.find? (·.signature = r.signature) with
      | none =>
          rw [ih (nodup_signatures_snoc hseen hfind), List.append_assoc]
          rfl
      | some earlier =>
          have hmem := List.mem_of_find?_eq_some hfind
          have hsame : earlier.signature = r.signature := by simpa using List.find?_some hfind
          refine iff_of_false (by simp) fun hnodup => ?_
          rw [List.map_append, List.nodup_append] at hnodup
          exact hnodup.2.2 _ (List.mem_map_of_mem hmem) _ (List.mem_map_of_mem List.mem_cons_self)
            hsame

/-- Where the walk stops, the routes in front have different signatures, and the first of them with
the signature at hand is the one that is reported. -/
theorem conflict?_eq_some {seen routes : List Route} {first second : Route}
    (hseen : (seen.map signature).Nodup) (h : conflict? seen routes = some (first, second)) :
    ∃ passed back, routes = passed ++ second :: back ∧ ((seen ++ passed).map signature).Nodup ∧
      (seen ++ passed).find? (·.signature = second.signature) = some first := by
  induction routes generalizing seen with
  | nil => cases h
  | cons r routes ih =>
      rw [conflict?] at h
      cases hfind : seen.find? (·.signature = r.signature) with
      | none =>
          rw [hfind] at h
          obtain ⟨passed, back, rfl, hnodup, hfirst⟩ := ih (nodup_signatures_snoc hseen hfind) h
          rw [List.append_assoc] at hnodup hfirst
          exact ⟨r :: passed, back, rfl, hnodup, hfirst⟩
      | some earlier =>
          rw [hfind] at h
          cases h
          exact ⟨[], routes, rfl, by rwa [List.append_nil], by rwa [List.append_nil]⟩

theorem firstConflict_of_conflict? {routes : List Route} {first second : Route}
    (h : conflict? [] routes = some (first, second)) : FirstConflict routes first second := by
  obtain ⟨passed, back, rfl, hnodup, hfind⟩ := @conflict?_eq_some [] _ _ _ .nil h
  obtain ⟨hsame, front, middle, rfl, hearliest⟩ := List.find?_eq_some_iff_append.mp hfind
  refine .mk back (of_decide_eq_true hsame) (fun r hr => ?_) hnodup
  simpa using hearliest r hr

/-- Signatures that are not all different are the same at two places. -/
theorem not_nodup_signatures_iff {routes : List Route} : ¬ (routes.map signature).Nodup ↔
    ∃ i j : Fin routes.length, i < j ∧ (routes.get i).signature = (routes.get j).signature := by
  rw [List.Nodup, List.pairwise_map, List.pairwise_iff_get]
  push Not
  exact Iff.rfl

/-! ### Single routes -/

/-- What a list of routes has to satisfy. -/
structure Acceptable (settings : ExtractorSettings) (routes : List Route) : Prop where
  distinct : (routes.map signature).Nodup
  templates : ∀ r ∈ routes, Template.IsTemplate r.path.toList
  bodies : settings.validateHttpMethods = true →
    ∀ r ∈ routes, r.http = .get ∨ r.http = .delete → r.body = none
  verbs : settings.validateHttpMethods = true →
    (∃ r ∈ routes, r.http.custom = true) → settings.allowCustomMethods = true

theorem checkMethod_eq_ok_iff {settings : ExtractorSettings} {r : Route} :
    checkMethod settings r = .ok () ↔
      (r.http = .get ∨ r.http = .delete → r.body = none) ∧
      (r.http.custom = true → settings.allowCustomMethods = true) := by
  unfold checkMethod
  split
  · next hbody =>
      refine iff_of_false (by simp) fun hfits => ?_
      simp only [Bool.and_eq_true, Bool.or_eq_true, decide_eq_true_eq] at hbody
      simp [hfits.1 hbody.1] at hbody
  · next hbody =>
      have fits : r.http = .get ∨ r.http = .delete → r.body = none := by simpa using hbody
      split
      · next hcustom =>
          refine iff_of_false (by simp) fun hfits => ?_
          rw [Bool.and_eq_true] at hcustom
          simp [hfits.2 hcustom.1] at hcustom
      · next hcustom => exact iff_of_true rfl ⟨fits, by simpa using hcustom⟩

theorem checkOne_eq_ok_iff {settings : ExtractorSettings} {r : Route} :
    checkOne settings r = .ok () ↔ Template.IsTemplate r.path.toList ∧
      (settings.validateHttpMethods = true → checkMethod settings r = .ok ()) := by
  unfold checkOne
  rw [← checkTemplate_eq_ok_iff]
  cases settings.validateHttpMethods with
  | false => simp
  | true => cases checkMethod settings r <;> simp [bind, Except.bind]

/-! ### Lists of routes -/

theorem check_of_conflict? {settings : ExtractorSettings} {routes : List Route}
    {first second : Route} (h : conflict? [] routes = some (first, second)) :
    check settings routes = .error (.conflict first.shown second.shown) := by
  rw [check, h]

/-- Routes with different signatures are checked one by one. -/
theorem check_of_nodup {settings : ExtractorSettings} {routes : List Route}
    (h : (routes.map signature).Nodup) :
      check settings routes = routes.forM (checkOne settings) := by
  have none : conflict? [] routes = none := (@conflict?_eq_none_iff [] routes .nil).mpr h
  rw [check, none]

/-- A conflict is reported whatever else is wrong. -/
theorem check_of_not_nodup (settings : ExtractorSettings) {routes : List Route}
    (h : ¬ (routes.map signature).Nodup) :
    ∃ first second, FirstConflict routes first second ∧
      check settings routes = .error (.conflict first.shown second.shown) := by
  cases hconflict : conflict? [] routes with
  | none => exact absurd ((@conflict?_eq_none_iff [] routes .nil).mp hconflict) h
  | some pair =>
      exact ⟨pair.1, pair.2, firstConflict_of_conflict? hconflict, check_of_conflict? hconflict⟩

theorem check_eq_ok_iff {settings : ExtractorSettings} {routes : List Route} :
    check settings routes = .ok () ↔ Acceptable settings routes := by
  by_cases hnodup : (routes.map signature).Nodup
  · rw [check_of_nodup hnodup, forM_eq_ok_iff]
    simp only [checkOne_eq_ok_iff, checkMethod_eq_ok_iff]
    constructor
    · intro hall
      refine ⟨hnodup, fun r hr => (hall r hr).1, fun hvalidate r hr => ((hall r hr).2 hvalidate).1,
        ?_⟩
      rintro hvalidate ⟨r, hr, hcustom⟩
      exact ((hall r hr).2 hvalidate).2 hcustom
    · rintro ⟨-, templates, bodies, verbs⟩ r hr
      exact ⟨templates r hr, fun hvalidate =>
        ⟨bodies hvalidate r hr, fun hcustom => verbs hvalidate ⟨r, hr, hcustom⟩⟩⟩
  · obtain ⟨first, second, -, hcheck⟩ := check_of_not_nodup settings hnodup
    rw [hcheck]
    exact iff_of_false (by simp) fun h => hnodup h.distinct

/-- The order of the routes plays no part. -/
theorem Acceptable.perm {settings : ExtractorSettings} {routes routes' : List Route}
    (h : Acceptable settings routes) (hperm : routes.Perm routes') :
      Acceptable settings routes' where
  distinct := (hperm.map signature).nodup_iff.mp h.distinct
  templates r hr := h.templates r (hperm.mem_iff.mpr hr)
  bodies hvalidate r hr := h.bodies hvalidate r (hperm.mem_iff.mpr hr)
  verbs hvalidate hcustom := by
    obtain ⟨r, hr, hcustom⟩ := hcustom
    exact h.verbs hvalidate ⟨r, hperm.mem_iff.mpr hr, hcustom⟩

/-- **A list of routes is accepted if all conditions hold.** So it is accepted in every order or in
none; and if two signatures are the same, this is what is reported, with the first route that
repeats a signature and the earliest one that has it. -/
theorem check_is_conjunction (settings : ExtractorSettings) (routes : List Route) :
    (check settings routes = .ok () ↔ Acceptable settings routes) ∧
    (∀ routes', routes.Perm routes' →
      (check settings routes' = .ok () ↔ check settings routes = .ok ())) ∧
    (¬ (routes.map signature).Nodup → ∃ first second, FirstConflict routes first second ∧
      check settings routes = .error (.conflict first.shown second.shown)) := by
  refine ⟨check_eq_ok_iff, fun routes' hperm => ?_, check_of_not_nodup settings⟩
  rw [check_eq_ok_iff, check_eq_ok_iff]
  exact ⟨fun h => h.perm hperm.symm, fun h => h.perm hperm⟩

/-- A `GET` route to a method of one service. -/
def getRoute (method path : String) (body : Option RequestBody) : Route :=
  ⟨"S", method, .get, path, [], [], body, ⟨"A", none, false⟩, ⟨"A", none, false⟩⟩

/-- Routes of which two pairs have the same signature, one pair around the other, and which have
other faults as well. The inner pair is reported, since its second route comes first. -/
def overlapping : List Route :=
  [getRoute "A" "/a" none, getRoute "B" "/\x7bb" (some .entire), getRoute "C" "/\x7bb" none,
    getRoute "D" "/a" none]

theorem check_is_conjunction_overlapping :
    (∃ first second, FirstConflict overlapping first second ∧
      check {} overlapping = .error (.conflict first.shown second.shown)) ∧
    check {} overlapping = .error (.conflict "S_B (GET /\x7bb)" "S_C (GET /\x7bb)") ∧
    check {} [getRoute "A" "/a" none, getRoute "B" "/b" none] = .ok () ∧
    check {} [getRoute "B" "/b" none, getRoute "A" "/a" none] = .ok () := by
  have accepted : check {} [getRoute "A" "/a" none, getRoute "B" "/b" none] = .ok () := by decide
  have turned := (check_is_conjunction {} [getRoute "A" "/a" none, getRoute "B" "/b" none]).2.1
    [getRoute "B" "/b" none, getRoute "A" "/a" none] (.swap _ _ _)
  exact ⟨(check_is_conjunction {} overlapping).2.2 (by decide), by
    decide, accepted, turned.mpr accepted⟩

end Route

/-! ### Routes of a file -/

/-- The signature that a binding gives to its route. -/
def HttpBinding.signature (b : HttpBinding) : String :=
  b.method.verb ++ " " ++ b.path

/-- The bindings of a method: those of its rule, if it has one. -/
def Method.bindings (m : Method) : List HttpBinding :=
  match m.httpRule with
  | .ok (some rule) => rule.primary :: rule.additional
  | _ => []

/-- The bindings of all methods of all services. -/
def SchemaFile.bindings (f : SchemaFile) : List HttpBinding :=
  f.services.flatMap fun s => s.methods.flatMap Method.bindings

namespace Route

variable {settings : ExtractorSettings} {f : SchemaFile} {routes : List Route}

/-- A route is what a binding is built into: it has its verb, its path and the body that goes with
them, and the verb is allowed. -/
structure IsOf (settings : ExtractorSettings) (b : HttpBinding) (r : Route) : Prop where
  http : r.http = b.method
  path : r.path = b.path
  body : r.body = bodyFor b.method b.body
  allowed : b.method.custom = true → settings.allowCustomMethods = true

theorem isOf_of_build {input : Option Message} {s : Service} {m : Method}
    {b : HttpBinding} {r : Route}
    (hbuild : build settings input s m b = .ok r) : IsOf settings b r := by
  obtain ⟨hallowed, -, params, -, rfl⟩ := build_eq_ok hbuild
  exact ⟨rfl, rfl, rfl, hallowed⟩

theorem forall₂_of_flatten {ε α β κ : Type} {R : κ → β → Prop} {g : α → Except ε (List β)}
    {keys : α → List κ} {as : List α} {bs : List β}
    (heach : ∀ a l, g a = .ok l → List.Forall₂ R (keys a) l)
    (h : (as.mapM g).map List.flatten = .ok bs) : List.Forall₂ R (as.flatMap keys) bs := by
  obtain ⟨lists, hlists, rfl⟩ := exists_lists_of_flatten h
  clear h
  induction hlists with
  | nil => exact .nil
  | @cons a l as lists hl _ ih =>
      rw [List.flatten_cons, List.flatMap_cons]
      exact List.rel_append (heach a l hl) ih

theorem isOf_ofMethod {s : Service} {m : Method} (h : ofMethod settings f s m = .ok routes) :
    List.Forall₂ (IsOf settings) m.bindings routes := by
  unfold ofMethod at h
  unfold Method.bindings
  cases hrule : m.httpRule with
  | error e =>
      rw [hrule] at h
      cases h
  | ok rule =>
      rw [hrule] at h
      cases rule with
      | none =>
          cases h
          exact .nil
      | some rule => exact (mapM_eq_ok_iff.mp h).imp fun b r hbuild => isOf_of_build hbuild

/-- The extraction leaves no binding out. -/
theorem isOf_ofFile (h : ofFile settings f = .ok routes) :
    List.Forall₂ (IsOf settings) f.bindings routes := by
  refine forall₂_of_flatten (fun s l hs => ?_) h
  exact forall₂_of_flatten (fun m l hm => isOf_ofMethod hm) hs

theorem signatures_ofFile (h : ofFile settings f = .ok routes) :
    routes.map signature = f.bindings.map HttpBinding.signature := by
  rw [← List.forall₂_eq_eq_eq, List.forall₂_map_left_iff, List.forall₂_map_right_iff]
  refine (isOf_ofFile h).flip.imp fun r b hof => ?_
  rw [signature, hof.http, hof.path, HttpBinding.signature]

/-- A route that was built meets the conditions on single routes. -/
theorem checkOne_of_build {input : Option Message} {s : Service} {m : Method}
    {b : HttpBinding} {r : Route}
    (hbuild : build settings input s m b = .ok r) : checkOne settings r = .ok () := by
  obtain ⟨hallowed, hcheck, params, -, rfl⟩ := build_eq_ok hbuild
  rw [checkOne_eq_ok_iff, checkMethod_eq_ok_iff]
  refine ⟨Template.check_ok_iff_isTemplate.mp hcheck, fun _ => ⟨fun hverb => ?_, hallowed⟩⟩
  have bodiless : (b.method = .get || b.method = .delete) = true := by simpa using hverb
  show bodyFor b.method b.body = none
  rw [bodyFor, if_pos bodiless]

/-- Without a conflict, the routes of a file are accepted. -/
theorem check_of_ofFile (hroutes : ofFile settings f = .ok routes)
    (hnodup : (routes.map signature).Nodup) :
    check settings routes = .ok () := by
  rw [check_of_nodup hnodup, forM_eq_ok_iff]
  intro r hr
  obtain ⟨s, -, m, -, b, hbuild⟩ := exists_build_of_mem_ofFile hroutes hr
  exact checkOne_of_build hbuild

/-- **Extracted routes fail the check by a conflict or not at all.** They do so if two of them have
the same signature. There is a route with its signature for each binding of each method of each
service of the file, in this order, so the two may come from anywhere. -/
theorem extracted_fail_only_by_conflict (hroutes : ofFile settings f = .ok routes) :
    (∀ e, check settings routes = .error e → ∃ first second, FirstConflict routes first second ∧
      e = .conflict first.shown second.shown) ∧
    ((∃ first second, check settings routes = .error (.conflict first second)) ↔
      ∃ i j : Fin routes.length, i < j ∧ (routes.get i).signature = (routes.get j).signature) ∧
    routes.map signature = f.bindings.map HttpBinding.signature := by
  refine ⟨fun e hfail => ?_, ?_, signatures_ofFile hroutes⟩
  · by_cases hnodup : (routes.map signature).Nodup
    · rw [check_of_ofFile hroutes hnodup] at hfail
      cases hfail
    · obtain ⟨first, second, hconflict, hcheck⟩ := check_of_not_nodup settings hnodup
      rw [hcheck] at hfail
      exact ⟨first, second, hconflict, (Except.error.inj hfail).symm⟩
  · rw [← not_nodup_signatures_iff]
    constructor
    · rintro ⟨first, second, hfail⟩ hnodup
      rw [check_of_ofFile hroutes hnodup] at hfail
      cases hfail
    · intro hnodup
      obtain ⟨first, second, -, hcheck⟩ := check_of_not_nodup settings hnodup
      exact ⟨first.shown, second.shown, hcheck⟩

/-- A service with one method, which has a rule. -/
def serviceWith (name : String) (rule : HttpRule) : Service :=
  ⟨name, [⟨"Get", ⟨"X", none, false⟩, ⟨"Y", none, false⟩, [], [], some rule⟩], [], []⟩

/-- Two services. A custom verb of an additional binding is spelled like the standard verb of the
other service, and leads to the same path. -/
def twoServices : SchemaFile :=
  { SchemaFile.empty with services :=
      [serviceWith "A" ⟨⟨.get, "/v1/x", none⟩, none, []⟩,
        serviceWith "B" ⟨⟨.post, "/v1/x", some "*"⟩, none, [⟨.ofKind "get", "/v1/x", none⟩]⟩] }

theorem extracted_fail_only_by_conflict_twoServices :
    ∃ routes, ofFile { inferQueryParams := false, allowCustomMethods := true } twoServices =
      .ok routes ∧
      ∃ first second, check { inferQueryParams := false, allowCustomMethods := true } routes =
        .error (.conflict first second) := by
  have hroutes : ofFile { inferQueryParams := false, allowCustomMethods := true } twoServices =
      .ok [⟨"A", "Get", .get, "/v1/x", [], [], none, ⟨"X", none, false⟩, ⟨"Y", none, false⟩⟩,
        ⟨"B", "Get", .post, "/v1/x", [], [], some .entire, ⟨"X", none, false⟩, ⟨"Y", none, false⟩⟩,
        ⟨"B", "Get", ⟨"GET", true⟩, "/v1/x", [], [], none, ⟨"X", none, false⟩,
        ⟨"Y", none, false⟩⟩] := by
    rfl
  exact ⟨_, hroutes, (extracted_fail_only_by_conflict hroutes).2.1.mpr ⟨0, 2, by decide, rfl⟩⟩

end Route

/-! ### Bodies -/

/-- Verbs whose requests have no body, by their spelling. -/
def HttpMethod.IsBodiless (m : HttpMethod) : Prop :=
  m.verb = "GET" ∨ m.verb = "DELETE"

namespace Route

variable {settings : ExtractorSettings} {f : SchemaFile} {routes : List Route}

theorem bodyFor_eq_none_iff {m : HttpMethod} {body : Option String} :
    bodyFor m body = none ↔ (m = .get ∨ m = .delete) ∨ (m.custom = true ∧ body.getD "" = "") := by
  unfold bodyFor
  by_cases hverb : m = .get ∨ m = .delete
  · simp [hverb]
  · by_cases hempty : body.getD "" = ""
    · cases m.custom <;> simp [hverb, hempty]
    · by_cases hentire : body.getD "" = "*" <;> simp [hverb, hempty, hentire]

/-- Where the spelling of a verb excludes a body, only a custom verb can have one. -/
theorem bodyFor_of_isBodiless {m : HttpMethod} (hm : m.IsBodiless) (body : Option String) :
    bodyFor m body = none ↔ (m.custom = true → body.getD "" = "") := by
  rw [bodyFor_eq_none_iff]
  obtain ⟨verb, custom⟩ := m
  cases custom with
  | false =>
      -- A verb that is not custom and is spelled so is the standard one.
      rcases hm with rfl | rfl <;> simp [HttpMethod.get, HttpMethod.delete]
  | true => simp [HttpMethod.get, HttpMethod.delete]

/-- **Routes with the verbs `GET` and `DELETE` have no body, unless the verb is a custom one.**
There is a route for each binding, primary or additional. If it is spelled `GET` or `DELETE`, it has
a body if and only if the verb is a custom one and the binding gives a body. So no such route has
one where custom verbs are not allowed. -/
theorem get_delete_bodiless_unless_custom (hroutes : extract settings f = .ok routes) :
    List.Forall₂ (fun b r => r.http = b.method ∧
      (r.http.IsBodiless → (r.body = none ↔ (b.method.custom = true → b.body.getD "" = ""))))
      f.bindings routes ∧
    (settings.allowCustomMethods = false → ∀ r ∈ routes, r.http.IsBodiless → r.body = none) := by
  have hof := isOf_ofFile (ofFile_of_extract hroutes)
  constructor
  · refine hof.imp fun b r hr => ⟨hr.http, fun hverb => ?_⟩
    rw [hr.http] at hverb
    rw [hr.body, bodyFor_of_isBodiless hverb]
  · intro hcustom r hr hverb
    obtain ⟨b, -, hb⟩ := exists_of_mem_forall₂ hof hr
    rw [hb.http] at hverb
    rw [hb.body, bodyFor_of_isBodiless hverb]
    intro hmethod
    rw [hb.allowed hmethod] at hcustom
    cases hcustom

/-- A `DELETE` with a body, and an additional binding to a custom verb `get` without one. -/
def deleting : SchemaFile :=
  { SchemaFile.empty with services :=
      [serviceWith "S" ⟨⟨.delete, "/v1/x", some "x"⟩, none, [⟨.ofKind "get", "/v1/x", none⟩]⟩] }

theorem get_delete_bodiless_unless_custom_deleting :
    ∃ first second, extract { inferQueryParams := false, allowCustomMethods := true } deleting =
        .ok [first, second] ∧
      first.http.verb = "DELETE" ∧ first.body = none ∧ second.http.verb = "GET" ∧
        second.body = none := by
  have hroutes : extract { inferQueryParams := false, allowCustomMethods := true } deleting =
      .ok [⟨"S", "Get", .delete, "/v1/x", [], [], none, ⟨"X", none, false⟩, ⟨"Y", none, false⟩⟩,
        ⟨"S", "Get", ⟨"GET", true⟩, "/v1/x", [], [], none, ⟨"X", none, false⟩,
        ⟨"Y", none, false⟩⟩] := by
    rfl
  obtain ⟨hfirst, hrest⟩ := List.forall₂_cons.mp (get_delete_bodiless_unless_custom hroutes).1
  obtain ⟨hsecond, -⟩ := List.forall₂_cons.mp hrest
  exact ⟨_, _, hroutes, rfl, (hfirst.2 (.inr rfl)).mpr (by decide), rfl,
    (hsecond.2 (.inl rfl)).mpr (by decide)⟩

/-- A custom verb `get` becomes `GET`, and its route has a body. -/
theorem get_route_with_body :
    ∃ routes, extract { inferQueryParams := false, allowCustomMethods := true }
        { SchemaFile.empty with services :=
          [serviceWith "S" ⟨⟨.ofKind "get", "/v1/x", some "*"⟩, none, []⟩] } =
          .ok routes ∧
      ∃ r ∈ routes, r.http.verb = "GET" ∧ r.body ≠ none :=
  ⟨_, rfl, _, List.mem_cons_self, rfl, by decide⟩

end Route

end ProtoRoutes
