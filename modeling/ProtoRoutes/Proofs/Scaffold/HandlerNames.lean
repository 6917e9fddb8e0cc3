import Mathlib.Data.List.Nodup
import ProtoRoutes.Http.Check
import ProtoRoutes.Proofs.Grammar.Strict
import ProtoRoutes.Scaffold.Controller

/-!
# ProtoRoutes.Proofs.Scaffold.HandlerNames

When the handlers of a controller have different names. A handler is named after its method in snake
case, and from the second route to a method of the interface on it also has the number of the route.
Numbers keep the routes to one method apart, but nothing keeps a numbered name apart from a method
that is called so: with two routes to `Get` and one to `Get_2` there are two handlers
`handle_get_2`.

`Handler.numbered` gives every route its number, so that the handlers are a map over it. Names of
handlers are equal in two ways only (`nameFor_eq_iff`): with the same number behind the same name,
which does not happen, or with a number on one side that is part of the name on the other side,
which is a `Clash`.
-/

namespace ProtoRoutes.Scaffold

/-! ### Numbers in names -/

theorem toList_numbered (name : String) (n : Nat) :
    (name ++ "_" ++ toString n).toList = name.toList ++ '_' :: Nat.toDigits 10 n := by
  simp

/-- Behind the last underscore there is no other split. -/
theorem eq_nil_of_underscore_split {digits rest mid : List Char} (hdigits : '_' ∉ digits)
    (h : '_' :: digits = mid ++ '_' :: rest) : mid = [] ∧ digits = rest := by
  cases mid with
  | nil => exact ⟨rfl, (List.cons.inj h).2⟩
  | cons c mid =>
      obtain ⟨-, rfl⟩ := List.cons.inj h
      exact absurd (List.mem_append_right mid List.mem_cons_self) hdigits

theorem numbered_inj {a b : String} {n k : Nat}
    (h : a ++ "_" ++ toString n = b ++ "_" ++ toString k) :
    a = b ∧ n = k := by
  have chars := congrArg String.toList h
  rw [toList_numbered, toList_numbered] at chars
  have parts : a.toList = b.toList ∧ Nat.toDigits 10 n = Nat.toDigits 10 k := by
    rcases List.append_eq_append_iff.mp chars with ⟨mid, hb, hrest⟩ | ⟨mid, ha, hrest⟩
    · obtain ⟨rfl, hdigits⟩ := eq_nil_of_underscore_split Nat.underscore_not_in_toDigits hrest
      exact ⟨by simpa using hb.symm, hdigits⟩
    · obtain ⟨rfl, hdigits⟩ := eq_nil_of_underscore_split Nat.underscore_not_in_toDigits hrest
      exact ⟨by simpa using ha, hdigits.symm⟩
  refine ⟨String.toList_inj.mp parts.1, ?_⟩
  calc n = Nat.ofDigitChars 10 (Nat.toDigits 10 n) 0 := Nat.ofDigitChars_ten_toDigits.symm
    _ = Nat.ofDigitChars 10 (Nat.toDigits 10 k) 0 := by rw [parts.2]
    _ = k := Nat.ofDigitChars_ten_toDigits

theorem numbered_endsWith_digit (name : String) (n : Nat) :
    (name ++ "_" ++ toString n).toList.getLast?.any Char.isDigit = true := by
  have hsome : Nat.toDigits 10 n ≠ [] := Nat.toDigits_ne_nil
  rw [toList_numbered, List.getLast?_append, List.getLast?_cons_of_ne_nil hsome,
    List.getLast?_eq_some_getLast hsome, Option.some_or]
  exact Nat.isDigit_of_mem_toDigits (by decide) (by decide) (List.getLast_mem hsome)

/-- A name that ends with a number is the safe name of itself only. -/
theorem safeName_eq_numbered_iff {a name : String} {n : Nat} :
    safeName a = name ++ "_" ++ toString n ↔ a = name ++ "_" ++ toString n := by
  have last := numbered_endsWith_digit name n
  have letters : ∀ k ∈ keywords, k.toList.getLast?.any Char.isDigit = false := by decide
  unfold safeName
  split
  · next hkeyword =>
      constructor
      · intro h
        rw [← h] at last
        simp at last
      · intro h
        rw [← h, letters a (by simpa using hkeyword)] at last
        cases last
  · exact Iff.rfl

namespace Handler

/-- Two handlers have the same name if they have the same method name and number, or if the number
of one of them is part of the method name of the other, which has none. -/
theorem nameFor_eq_iff {a b : String} {n k : Nat} (hn : 1 ≤ n) (hk : 1 ≤ k) :
    nameFor a n = nameFor b k ↔
      (snake a = snake b ∧ n = k) ∨
      (1 < n ∧ k = 1 ∧ snake b = snake a ++ "_" ++ toString n) ∨
      (n = 1 ∧ 1 < k ∧ snake a = snake b ++ "_" ++ toString k) := by
  have first (m : String) : nameFor m 1 = "handle_" ++ snake m := rfl
  have later (m : String) {j : Nat} (hj : 1 < j) :
      nameFor m j = "handle_" ++ (snake m ++ "_" ++ toString j) := by
    rw [← String.append_assoc, ← String.append_assoc]
    exact if_pos hj
  rcases Nat.eq_or_lt_of_le hn with rfl | hn
  · rcases Nat.eq_or_lt_of_le hk with rfl | hk
    · rw [first, first, String.append_right_inj]
      simp
    · rw [first, later b hk, String.append_right_inj]
      have : 1 ≠ k := Nat.ne_of_lt hk
      simp [hk, this]
  · rcases Nat.eq_or_lt_of_le hk with rfl | hk
    · rw [first, later a hn, String.append_right_inj]
      have : n ≠ 1 := Nat.ne_of_gt hn
      simp [hn, this, eq_comm]
    · rw [later a hn, later b hk, String.append_right_inj]
      have hn' : n ≠ 1 := Nat.ne_of_gt hn
      have hk' : k ≠ 1 := Nat.ne_of_gt hk
      simp only [hn', hk', false_and, and_false, or_false]
      exact ⟨numbered_inj, fun ⟨hab, hnk⟩ => by rw [hab, hnk]⟩

/-! ### Numbered routes -/

/-- Routes with their numbers, behind routes to the methods in `targets`: the first route to a
method of the interface is number one, and so on. -/
def numbered (targets : List String) : List Route → List (Route × Nat)
  | [] => []
  | r :: rest =>
    (r, targets.count (targetName r.method) + 1) :: numbered (targetName r.method :: targets) rest

theorem ofRoutes_eq (targets : List String) (routes : List Route) :
    ofRoutes targets routes = (numbered targets routes).map fun e => ofRoute e.1 e.2 := by
  induction routes generalizing targets with
  | nil => rfl
  | cons r routes ih => exact congrArg (_ :: ·) (ih _)

theorem map_fst_numbered (targets : List String) (routes : List Route) :
    (numbered targets routes).map Prod.fst = routes := by
  induction routes generalizing targets with
  | nil => rfl
  | cons r routes ih => exact congrArg (r :: ·) (ih _)

theorem count_lt_of_mem_numbered {targets : List String} {routes : List Route} {e : Route × Nat}
    (he : e ∈ numbered targets routes) : targets.count (targetName e.1.method) < e.2 := by
  induction routes generalizing targets with
  | nil => cases he
  | cons r routes ih =>
      rcases List.mem_cons.mp he with rfl | he
      · exact Nat.lt_succ_self _
      · exact Nat.lt_of_le_of_lt List.count_le_count_cons (ih he)

/-- Of two routes to the same method of the interface, the later one has the greater number. -/
theorem numbered_increasing (targets : List String) (routes : List Route) :
    (numbered targets routes).Pairwise fun a b =>
      targetName a.1.method = targetName b.1.method → a.2 < b.2 := by
  induction routes generalizing targets with
  | nil => exact .nil
  | cons r routes ih =>
      refine .cons (fun b hb heq => ?_) (ih _)
      have hlt := count_lt_of_mem_numbered hb
      rwa [← heq, List.count_cons_self] at hlt

/-- Some route to the same method of the interface has the first number. -/
theorem exists_first_of_mem {targets : List String} {routes : List Route} {r : Route}
    (hr : r ∈ routes) :
    ∃ e ∈ numbered targets routes, targetName e.1.method = targetName r.method ∧
      e.2 = targets.count (targetName r.method) + 1 := by
  induction routes generalizing targets with
  | nil => cases hr
  | cons q routes ih =>
      by_cases hsame : targetName q.method = targetName r.method
      · exact ⟨_, List.mem_cons_self, hsame, by rw [hsame]⟩
      · have hr' : r ∈ routes := (List.mem_cons.mp hr).resolve_left fun h => hsame (by rw [h])
        obtain ⟨e, he, htarget, hnumber⟩ := @ih (targetName q.method :: targets) hr'
        rw [List.count_cons_of_ne hsame] at hnumber
        exact ⟨e, List.mem_cons_of_mem _ he, htarget, hnumber⟩

/-! ### Clashes -/

/-- There is a route with a number behind its name, and a method whose name is the numbered one. -/
def Clash (routes : List Route) : Prop :=
  ∃ e ∈ numbered [] routes, 1 < e.2 ∧
    ∃ r ∈ routes, snake r.method = snake e.1.method ++ "_" ++ toString e.2

/-- The route that a numbered one clashes with can be taken to be the first to its method. -/
theorem Clash.exists_pair {routes : List Route} (h : Clash routes) :
    ∃ a ∈ numbered [] routes, ∃ b ∈ numbered [] routes,
      1 < a.2 ∧ b.2 = 1 ∧ snake b.1.method = snake a.1.method ++ "_" ++ toString a.2 := by
  obtain ⟨a, ha, hnumber, r, hr, hname⟩ := h
  obtain ⟨b, hb, htarget, hfirst⟩ := @exists_first_of_mem [] routes r hr
  refine ⟨a, ha, b, hb, hnumber, hfirst, ?_⟩
  have same : safeName (snake b.1.method) = snake a.1.method ++ "_" ++ toString a.2 :=
    htarget.trans (safeName_eq_numbered_iff.mpr hname)
  exact safeName_eq_numbered_iff.mp same

/-- Where a numbered name is that of another method, the handlers call different methods of the
interface. -/
theorem target_ne_of_numbered {a b : String} {n : Nat}
    (h : snake b = snake a ++ "_" ++ toString n) :
    targetName a ≠ targetName b := by
  intro heq
  rw [targetName, targetName, safeName_eq_numbered_iff.mpr h, safeName_eq_numbered_iff] at heq
  have lengths := congrArg String.length heq
  simp only [String.length_append, show "_".length = 1 from rfl] at lengths
  omega

theorem nodup_names_iff (routes : List Route) :
    ((ofRoutes [] routes).map (·.name)).Nodup ↔ ¬ Clash routes := by
  have names : (ofRoutes [] routes).map (·.name) =
      (numbered [] routes).map fun e => nameFor e.1.method e.2 := by
    rw [ofRoutes_eq, List.map_map]
    rfl
  have positive (e : Route × Nat) (he : e ∈ numbered [] routes) : 1 ≤ e.2 :=
    Nat.lt_of_le_of_lt (Nat.zero_le _) (count_lt_of_mem_numbered he)
  have route (e : Route × Nat) (he : e ∈ numbered [] routes) : e.1 ∈ routes :=
    map_fst_numbered [] routes ▸ List.mem_map_of_mem he
  rw [names]
  constructor
  · intro hnodup hclash
    obtain ⟨a, ha, b, hb, hnumber, hfirst, hname⟩ := hclash.exists_pair
    have hsame : nameFor a.1.method a.2 = nameFor b.1.method b.2 :=
      (nameFor_eq_iff (positive a ha) (positive b hb)).mpr (.inr (.inl ⟨hnumber, hfirst, hname⟩))
    have hab := List.inj_on_of_nodup_map hnodup ha hb hsame
    rw [hab, hfirst] at hnumber
    exact Nat.lt_irrefl 1 hnumber
  · intro hclash
    refine List.pairwise_map.mpr ((numbered_increasing [] routes).imp_of_mem ?_)
    intro a b ha hb hincreasing hsame
    rcases (nameFor_eq_iff (positive a ha) (positive b hb)).mp hsame with
      ⟨hname, hnumber⟩ | ⟨hnumber, -, hname⟩ | ⟨-, hnumber, hname⟩
    · have hlt := hincreasing (congrArg safeName hname)
      rw [hnumber] at hlt
      exact Nat.lt_irrefl _ hlt
    · exact hclash ⟨a, ha, hnumber, b.1, route b hb, hname⟩
    · exact hclash ⟨b, hb, hnumber, a.1, route a ha, hname⟩

end Handler

/-- The handler that a name stands for in a controller: of several handlers with one name the last
one counts. -/
def Controller.handlerNamed? (c : Controller) (name : String) : Option Handler :=
  c.handlers.reverse.find? (·.name = name)

namespace Controller

theorem handlerNamed?_of_nodup {c : Controller} (hnodup : (c.handlers.map (·.name)).Nodup)
    {h : Handler} (hh : h ∈ c.handlers) : c.handlerNamed? h.name = some h := by
  have reversed : (c.handlers.reverse.map (·.name)).Nodup := by
    rw [List.map_reverse]
    exact List.nodup_reverse.mpr hnodup
  exact (Grammar.find?_key_eq_some_iff reversed).mpr ⟨List.mem_reverse.mpr hh, rfl⟩

/-- At a clash, two rows have one name, and their handlers call different methods. -/
theorem not_clash_of_handlerNamed? {s : Service} {routes : List Route}
    (hall : ∀ h ∈ (ofService s routes).handlers, (ofService s routes).handlerNamed? h.name =
      some h) :
    ¬ Handler.Clash (routesOf s routes) := by
  intro hclash
  obtain ⟨a, ha, b, hb, hnumber, hfirst, hname⟩ := hclash.exists_pair
  have listed {e : Route × Nat} (he : e ∈ Handler.numbered [] (routesOf s routes)) :
      Handler.ofRoute e.1 e.2 ∈ Handler.ofRoutes [] (routesOf s routes) :=
    (Handler.ofRoutes_eq [] (routesOf s routes)).symm ▸ List.mem_map_of_mem he
  have same : (Handler.ofRoute a.1 a.2).name = (Handler.ofRoute b.1 b.2).name :=
    (Handler.nameFor_eq_iff (Nat.le_of_lt hnumber) (Nat.le_of_eq hfirst.symm)).mpr
      (.inr (.inl ⟨hnumber, hfirst, hname⟩))
  have found : some (Handler.ofRoute a.1 a.2) = some (Handler.ofRoute b.1 b.2) := by
    rw [← hall _ (listed ha), ← hall _ (listed hb), same]
  exact Handler.target_ne_of_numbered hname (congrArg Handler.target (Option.some.inj found))

end Controller

/-- **Handlers of a controller have different names unless a numbered name is that of another
method.** For any service and any routes, the handler names of the controller are pairwise
different, and every row of the table stands for its own handler, if and only if no routed method is
called like another one with the number of its second or a later route behind it. -/
theorem handler_names_distinct_iff_no_clash (s : Service) (routes : List Route) :
    (((Controller.ofService s routes).handlers.map (·.name)).Nodup ↔
      ¬ Handler.Clash (routesOf s routes)) ∧
    ((∀ h ∈ (Controller.ofService s routes).handlers,
        (Controller.ofService s routes).handlerNamed? h.name = some h) ↔
      ¬ Handler.Clash (routesOf s routes)) := by
  refine ⟨Handler.nodup_names_iff _, Controller.not_clash_of_handlerNamed?, fun hclash h hh => ?_⟩
  exact Controller.handlerNamed?_of_nodup ((Handler.nodup_names_iff _).mpr hclash) hh

/-- Two routes to `G` and one to `G_2`. -/
def clashing : String :=
  "service S \x7b rpc G(A) returns (A) \x7b option (google.api.http) = \x7b get: \"/a\" " ++
  "additional_bindings \x7b get: \"/b\" \x7d \x7d; \x7d " ++
  "rpc G_2(A) returns (A) \x7b option (google.api.http) = \x7b get: \"/c\" \x7d; \x7d \x7d"

/-- The routes pass every check, and two of the three handlers are `handle_g_2`. -/
theorem handler_names_collide :
    ∃ f routes, Grammar.parse ⟨true, false⟩ clashing = .ok f ∧ Route.extract {} f = .ok routes ∧
      ∃ s ∈ f.services, ¬ ((Controller.ofService s routes).handlers.map (·.name)).Nodup := by
  obtain ⟨f, routes, hread, hroutes, s, hs, hnames⟩ :=
    @Grammar.exists_service_of_toOption _ _ _ ⟨true, false⟩
    clashing (Route.extract {})
      (fun s routes => (Controller.ofService s routes).handlers.map (·.name))
    ["handle_g", "handle_g_2", "handle_g_2"] (by decide +kernel)
  refine ⟨f, routes, hread, hroutes, s, hs, ?_⟩
  rw [hnames]
  decide

end ProtoRoutes.Scaffold
