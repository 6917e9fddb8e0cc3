import Mathlib.Data.List.Forall2
import Mathlib.Data.List.TakeWhile
import ProtoRoutes.Http.Check

/-!
# ProtoRoutes.Proofs.Http.Templates

The three readings of a path template agree. `Grouped` says what a template is: text without braces,
and groups in braces that bind a variable. An accepted template is of this form, and on this form
the parameters of a route and the variables of a handler are both read off the groups, one for each
opening brace.
-/

namespace ProtoRoutes

/-- A list of results is a result for each member. -/
theorem mapM_eq_ok_iff {ε α β : Type} {f : α → Except ε β} {as : List α} {bs : List β} :
    as.mapM f = .ok bs ↔ List.Forall₂ (fun a b => f a = .ok b) as bs := by
  induction as generalizing bs with
  | nil => cases bs <;> simp [pure, Except.pure]
  | cons a as ih =>
      rw [List.mapM_cons, List.forall₂_cons_left_iff]
      cases hhead : f a with
      | error e => simp [bind, Except.bind]
      | ok b =>
          cases htail : as.mapM f with
          | error e => simp [bind, Except.bind, ← ih, htail]
          | ok cs =>
              have tail : ∀ ds, List.Forall₂ (fun a b => f a = .ok b) as ds ↔ cs = ds := by
                intro ds
                rw [← ih, htail, Except.ok.injEq]
              constructor
              · rintro ⟨⟩
                exact ⟨b, cs, rfl, (tail cs).mpr rfl, rfl⟩
              · rintro ⟨b, ds, ⟨⟩, hds, rfl⟩
                rw [← (tail ds).mp hds]
                rfl

theorem exists_of_mem_forall₂ {α β : Type} {R : α → β → Prop} {as : List α} {bs : List β}
    (h : List.Forall₂ R as bs) {b : β} (hb : b ∈ bs) : ∃ a ∈ as, R a b := by
  induction h with
  | nil => cases hb
  | @cons a c as bs hac _ ih =>
      rcases List.mem_cons.mp hb with rfl | hb
      · exact ⟨a, List.mem_cons_self, hac⟩
      · obtain ⟨d, hd, hdb⟩ := ih hb
        exact ⟨d, List.mem_cons_of_mem a hd, hdb⟩

namespace Template

open Text (replaceChar)

/-- Text without braces. -/
def NoBraces (cs : List Char) : Prop :=
  ∀ c ∈ cs, c ≠ '{' ∧ c ≠ '}'

/-- A template with its groups. -/
inductive Grouped : List Char → List (List Char) → Prop where
  | nil : Grouped [] []
  | char {c : Char} {cs : List Char} {gs : List (List Char)} (hc : c ≠ '{' ∧ c ≠ '}')
      (rest : Grouped cs gs) : Grouped (c :: cs) gs
  | group {g cs : List Char} {gs : List (List Char)} (hg : NoBraces g) (hname : variableOf g ≠ [])
      (rest : Grouped cs gs) : Grouped ('{' :: (g ++ '}' :: cs)) (g :: gs)

/-! ### Checking -/

/-- What is left of a template, inside a group if its start is given. -/
def Remains : Option (List Char) → List Char → Prop
  | none, cs => ∃ gs, Grouped cs gs
  | some g, cs => ∃ back tail gs, cs = back ++ '}' :: tail ∧ NoBraces back ∧
    variableOf (g ++ back) ≠ [] ∧
      Grouped tail gs

theorem remains_of_checkBraces {state : Option (List Char)} {cs : List Char}
    (hcheck : checkBraces state cs = .ok ()) : Remains state cs := by
  -- On the steps of the check: the start of an open group is its state.
  fun_induction checkBraces state cs with
  | case1 => exact ⟨[], .nil⟩
  | case2 => cases hcheck
  | case3 rest ih =>
      obtain ⟨g, tail, gs, rfl, hg, hname, htail⟩ := ih hcheck
      exact ⟨g :: gs, .group hg hname htail⟩
  | case4 => cases hcheck
  | case5 c rest hopen hclose ih =>
      obtain ⟨gs, hrest⟩ := ih hcheck
      exact ⟨gs, .char ⟨hopen, hclose⟩ hrest⟩
  | case6 => cases hcheck
  | case7 => cases hcheck
  | case8 g rest hname _ ih =>
      obtain ⟨gs, hrest⟩ := ih hcheck
      refine ⟨[], rest, gs, rfl, by simp [NoBraces], ?_, hrest⟩
      simpa using hname
  | case9 g c rest hopen hclose ih =>
      obtain ⟨back, tail, gs, rfl, hback, hname, htail⟩ := ih hcheck
      refine ⟨c :: back, tail, gs, rfl, ?_, by simpa using hname, htail⟩
      rintro d (_ | ⟨_, hd⟩)
      · exact ⟨hopen, hclose⟩
      · exact hback d hd

/-- An accepted template is a row of groups and text between them. -/
theorem grouped_of_check {path : List Char} (hcheck : check path = .ok ()) :
    ∃ gs, Grouped path gs := by
  unfold check at hcheck
  split at hcheck
  · cases hcheck
  · split at hcheck
    · exact remains_of_checkBraces hcheck
    · cases hcheck

theorem head?_of_check {path : List Char} (hcheck : check path = .ok ()) :
    path.head? = some '/' := by
  unfold check at hcheck
  split at hcheck
  · cases hcheck
  · next c rest =>
      split at hcheck
      · next hc => exact congrArg some hc
      · cases hcheck

/-! ### Reading -/

theorem groupsFrom_some {back : List Char} (hback : NoBraces back) (g tail : List Char) :
    groupsFrom (some g) (back ++ '}' :: tail) = (g ++ back) :: groupsFrom none tail := by
  induction back generalizing g with
  | nil => simp [groupsFrom]
  | cons c back ih =>
      have hc := hback c List.mem_cons_self
      have rest := ih (fun d hd => hback d (List.mem_cons_of_mem c hd)) (g ++ [c])
      simp [groupsFrom, hc.2, rest]

namespace Grouped

variable {cs : List Char} {gs : List (List Char)}

theorem groups_eq (h : Grouped cs gs) : groups cs = gs := by
  induction h with
  | nil => rfl
  | char hc _ ih => simpa [groups, groupsFrom, hc.1] using ih
  | @group g cs gs hg hname _ ih =>
      unfold groups at ih ⊢
      rw [groupsFrom, if_pos rfl, groupsFrom_some hg, ih, List.nil_append]

theorem count_eq (h : Grouped cs gs) : cs.count '{' = gs.length := by
  induction h with
  | nil => rfl
  | char hc _ ih => simpa [List.count_cons, hc.1] using ih
  | @group g cs gs hg hname _ ih =>
      have inside : g.count '{' = 0 := List.count_eq_zero.mpr fun hmem => (hg _ hmem).1 rfl
      simp [inside, ih]

theorem variableOf_ne_nil (h : Grouped cs gs) : ∀ g ∈ gs, variableOf g ≠ [] := by
  induction h with
  | nil => simp
  | char _ _ ih => exact ih
  | group _ hname _ ih => simpa [hname] using ih

/-- Behind an opening brace, a variable goes to the equals sign or the end of the group. -/
theorem takeWhile_group {g : List Char} (hg : NoBraces g) (tail : List Char) :
    (g ++ '}' :: tail).takeWhile (fun d => d ≠ '}' && d ≠ '=') = g.takeWhile (· ≠ '=') := by
  induction g with
  | nil => simp
  | cons c g ih =>
      have hc := hg c List.mem_cons_self
      have rest := ih fun d hd => hg d (List.mem_cons_of_mem c hd)
      rw [List.cons_append, List.takeWhile_cons, List.takeWhile_cons, rest]
      simp [hc.2]

theorem dropWhile_group {g : List Char} (hg : NoBraces g) (tail : List Char) :
    (g ++ '}' :: tail).dropWhile (· ≠ '}') = '}' :: tail := by
  rw [List.dropWhile_append_of_pos]
  · simp
  · intro c hc
    simpa using (hg c hc).2

theorem boundVariables_eq (h : Grouped cs gs) :
    boundVariables cs = gs.map fun g => g.takeWhile (· ≠ '=') := by
  induction h with
  | nil => simp [boundVariables]
  | char hc _ ih =>
      rw [boundVariables]
      simp [hc.1, ih]
  | @group g cs gs hg hname _ ih =>
      -- The variable is more than blanks, so the reading does not pass over the group.
      have name : (g.takeWhile (· ≠ '=')) ≠ [] := by
        intro hnil
        refine hname ?_
        rw [variableOf, hnil]
        rfl
      have found : !(g.takeWhile (· ≠ '=')).isEmpty := by simpa using name
      simp only [boundVariables, takeWhile_group hg, dropWhile_group hg, found]
      simp [ih]

/-- Every group has a parameter, since a name is not empty if a variable is not. -/
theorem parameterNames_eq (h : Grouped cs gs) :
    parameterNames cs = .ok (gs.map fun g => String.ofList (parameterName g)) := by
  unfold parameterNames
  rw [h.groups_eq, mapM_eq_ok_iff, List.forall₂_map_right_iff, List.forall₂_same]
  intro g hg
  have name : parameterName g ≠ [] := by
    simpa [parameterName, replaceChar] using h.variableOf_ne_nil g hg
  simp [name]

end Grouped

end Template

namespace Route

/-- The parameters of a route come from the groups of its template. -/
theorem pathParamsOf_eq {path : String} {gs : List (List Char)}
    (h : Template.Grouped path.toList gs) :
    pathParamsOf path =
      .ok (gs.map fun g => .ofName (String.ofList (Template.parameterName g))) := by
  simp [pathParamsOf, h.parameterNames_eq, Except.mapError, Except.map]

/-! ### Routes of a file -/

/-- A route with an accepted template and the parameters of this template. -/
def Built (r : Route) : Prop :=
  Template.check r.path.toList = .ok () ∧ pathParamsOf r.path = .ok r.pathParams

theorem Built.name_ne_empty {r : Route} (h : r.Built) : ∀ p ∈ r.pathParams, p.name ≠ "" := by
  obtain ⟨hcheck, hparams⟩ := h
  obtain ⟨gs, hgs⟩ := Template.grouped_of_check hcheck
  rw [pathParamsOf_eq hgs] at hparams
  rw [← Except.ok.inj hparams]
  intro p hp
  obtain ⟨g, hg, rfl⟩ := List.mem_map.mp hp
  simpa [Parameter.ofName, Template.parameterName, Text.replaceChar]
    using hgs.variableOf_ne_nil g hg

theorem mem_queryFor {settings : ExtractorSettings} {pathNames : List String}
    {input : Option Message} {q : Parameter} (h : q ∈ queryFor settings pathNames input) :
      q.name ∈ settings.commonQueryParams := by
  unfold queryFor at h
  split at h
  · obtain ⟨name, hname, rfl⟩ := List.mem_map.mp h
    exact List.mem_of_mem_filter hname
  · cases h

/-- What a binding of a method is made into. -/
theorem build_eq_ok {settings : ExtractorSettings} {input : Option Message}
    {s : Service} {m : Method}
    {b : HttpBinding} {r : Route} (hbuild : build settings input s m b = .ok r) :
    (b.method.custom = true → settings.allowCustomMethods = true) ∧
    Template.check b.path.toList = .ok () ∧
    ∃ params, pathParamsOf b.path = .ok params ∧
      r = ⟨s.name, m.name, b.method, b.path, params, queryFor settings (params.map (·.name)) input,
        bodyFor b.method b.body, m.input, m.output⟩ := by
  unfold build at hbuild
  split at hbuild
  · cases hbuild
  · next hallowed =>
      cases hcheck : Template.check b.path.toList with
      | error e =>
          rw [checkTemplate, hcheck] at hbuild
          cases hbuild
      | ok _ =>
          rw [checkTemplate, hcheck] at hbuild
          cases hparams : pathParamsOf b.path with
          | error e =>
              rw [hparams] at hbuild
              cases hbuild
          | ok params =>
              rw [hparams] at hbuild
              cases hbuild
              exact ⟨by simpa using hallowed, rfl, params, rfl, rfl⟩

theorem exists_lists_of_flatten {ε α β : Type} {f : α → Except ε (List β)} {as : List α}
    {bs : List β} (h : (as.mapM f).map List.flatten = .ok bs) :
    ∃ lists, List.Forall₂ (fun a l => f a = .ok l) as lists ∧ bs = lists.flatten := by
  cases hlists : as.mapM f with
  | error e =>
      rw [hlists] at h
      cases h
  | ok lists =>
      rw [hlists] at h
      cases h
      exact ⟨lists, mapM_eq_ok_iff.mp hlists, rfl⟩

theorem exists_of_mem_flatten {ε α β : Type} {f : α → Except ε (List β)} {as : List α} {bs : List β}
    (h : (as.mapM f).map List.flatten = .ok bs) {b : β} (hb : b ∈ bs) :
    ∃ a ∈ as, ∃ cs, f a = .ok cs ∧ b ∈ cs := by
  obtain ⟨lists, hlists, rfl⟩ := exists_lists_of_flatten h
  obtain ⟨cs, hcs, hb⟩ := List.mem_flatten.mp hb
  obtain ⟨a, ha, hacs⟩ := exists_of_mem_forall₂ hlists hcs
  exact ⟨a, ha, cs, hacs, hb⟩

/-- A route of a method is built from one of the bindings of its rule. -/
theorem exists_build_of_mem_ofMethod {settings : ExtractorSettings} {f : SchemaFile} {s : Service}
    {m : Method} {routes : List Route} (hroutes : ofMethod settings f s m = .ok routes) {r : Route}
    (hr : r ∈ routes) : ∃ b, build settings (f.findMessage? m.input.fullName) s m b = .ok r := by
  unfold ofMethod at hroutes
  cases hrule : m.httpRule with
  | error e =>
      rw [hrule] at hroutes
      cases hroutes
  | ok rule =>
      rw [hrule] at hroutes
      cases rule with
      | none =>
          cases hroutes
          cases hr
      | some rule =>
          obtain ⟨b, -, hbuild⟩ := exists_of_mem_forall₂ (mapM_eq_ok_iff.mp hroutes) hr
          exact ⟨b, hbuild⟩

theorem exists_build_of_mem_ofFile {settings : ExtractorSettings} {f : SchemaFile}
    {routes : List Route} (hroutes : ofFile settings f = .ok routes) {r : Route} (hr : r ∈ routes) :
    ∃ s ∈ f.services, ∃ m ∈ s.methods, ∃ b,
      build settings (f.findMessage? m.input.fullName) s m b = .ok r := by
  obtain ⟨s, hs, ofService, hservice, hr⟩ := exists_of_mem_flatten hroutes hr
  obtain ⟨m, hm, ofMethod, hmethod, hr⟩ := exists_of_mem_flatten hservice hr
  exact ⟨s, hs, m, hm, exists_build_of_mem_ofMethod hmethod hr⟩

/-- Routes that are checked have been extracted. -/
theorem ofFile_of_extract {settings : ExtractorSettings} {f : SchemaFile} {routes : List Route}
    (h : extract settings f = .ok routes) : ofFile settings f = .ok routes := by
  unfold extract at h
  cases hfile : ofFile settings f with
  | error e =>
      rw [hfile] at h
      cases h
  | ok found =>
      rw [hfile] at h
      cases hcheck : check settings found with
      | error e =>
          simp [bind, Except.bind, hcheck] at h
      | ok _ =>
          simpa [bind, Except.bind, hcheck] using h

/-- Every route of a file has an accepted template and its parameters. -/
theorem built_of_ofFile {settings : ExtractorSettings} {f : SchemaFile} {routes : List Route}
    (hroutes : ofFile settings f = .ok routes) : ∀ r ∈ routes, r.Built := by
  intro r hr
  obtain ⟨s, -, m, -, b, hbuild⟩ := exists_build_of_mem_ofFile hroutes hr
  obtain ⟨-, hcheck, params, hparams, rfl⟩ := build_eq_ok hbuild
  exact ⟨hcheck, hparams⟩

end Route

end ProtoRoutes
