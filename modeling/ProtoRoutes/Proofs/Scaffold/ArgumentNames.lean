import Mathlib.Data.List.Nodup
import ProtoRoutes.Proofs.Grammar.Runs
import ProtoRoutes.Proofs.Scaffold.Arguments
import ProtoRoutes.Settings.Load

/-!
# ProtoRoutes.Proofs.Scaffold.ArgumentNames

The names of the arguments of a handler. An argument is named after its parameter, with an
underscore behind it if that is a keyword, and then with further underscores for as long as the name
is taken. The search ends, since every taken name that it meets is longer than the one before: the
number of taken names that are at least as long as the candidate goes down (`search_freeName`). What
it finds is a new name, so that a row of arguments has different names, and the path, the body and
the query of a handler are one such row (`argNames_ofRoute`).

Underscores at the end make a name neither legal nor illegal. So an argument is a legal name if its
parameter has one. Query parameters have legal names by the check of the settings, but a variable in
a path is any text.
-/

namespace ProtoRoutes.Scaffold

open Text (replaceChar isName)

/-! ### The search for a name -/

/-- The search for a name that is not taken: as long as it is, it goes on with one more underscore.
-/
inductive Search (taken : List String) : String → String → Prop where
  | found {name : String} (hfree : name ∉ taken) : Search taken name name
  | next {name arg : String} (htaken : name ∈ taken) (rest : Search taken (name ++ "_") arg) :
      Search taken name arg

/-- An argument is a name with underscores behind it. -/
def Lengthens (name arg : String) : Prop :=
  ∃ n, arg.toList = name.toList ++ List.replicate n '_'

namespace Lengthens

theorem refl (name : String) : Lengthens name name :=
  ⟨0, by simp⟩

theorem underscore {name arg : String} (h : Lengthens (name ++ "_") arg) : Lengthens name arg := by
  obtain ⟨n, hn⟩ := h
  refine ⟨n + 1, ?_⟩
  rw [hn, String.toList_append, List.append_assoc]
  rfl

end Lengthens

namespace Search

variable {taken : List String} {name arg : String}

/-- The search ends with a name that is not taken. -/
theorem notMem (h : Search taken name arg) : arg ∉ taken := by
  induction h with
  | found hfree => exact hfree
  | next _ _ ih => exact ih

/-- The search only appends underscores. -/
theorem lengthens (h : Search taken name arg) : Lengthens name arg := by
  induction h with
  | found _ => exact .refl _
  | next _ _ ih => exact ih.underscore

end Search

/-- The number of taken names that are at least as long as a name. -/
def obstacles (taken : List String) (name : String) : Nat :=
  taken.countP fun t => name.length ≤ t.length

theorem obstacles_split (front back : List String) (t name : String) :
    obstacles (front ++ t :: back) name =
      obstacles front name + obstacles back name + if name.length ≤ t.length then 1 else 0 := by
  simp only [obstacles, List.countP_append, List.countP_cons, decide_eq_true_eq]
  omega

/-- A taken name is no obstacle any more with one more underscore. -/
theorem obstacles_lt {taken : List String} {name : String} (h : name ∈ taken) :
    obstacles taken (name ++ "_") < obstacles taken name := by
  have longer : (name ++ "_").length = name.length + 1 := String.length_append ..
  have fewer (l : List String) : obstacles l (name ++ "_") ≤ obstacles l name := by
    refine List.countP_mono_left fun t _ ht => ?_
    simp only [longer, decide_eq_true_eq] at ht ⊢
    omega
  obtain ⟨front, back, rfl⟩ := List.append_of_mem h
  have hfront := fewer front
  have hback := fewer back
  rw [obstacles_split, obstacles_split, if_neg (by omega), if_pos (Nat.le_refl _)]
  omega

/-- The search ends before there are no obstacles left. -/
theorem search_freeName {taken : List String} {n : Nat} {name : String}
    (h : obstacles taken name ≤ n) :
    Search taken name (freeName taken n name) := by
  induction n generalizing name with
  | zero =>
      refine .found fun hmem => ?_
      have := obstacles_lt hmem
      omega
  | succ n ih =>
      unfold freeName
      by_cases hmem : name ∈ taken
      · have := obstacles_lt hmem
        simp only [List.contains_iff_mem, hmem, if_true]
        exact .next hmem (ih (by omega))
      · simp only [List.contains_iff_mem, hmem, if_false]
        exact .found hmem

theorem search_argumentName (taken : List String) (name : String) :
    Search taken (safeName name) (argumentName taken name) :=
  search_freeName List.countP_le_length

/-! ### Keywords -/

theorem lengthens_safeName (name : String) : Lengthens name (safeName name) := by
  unfold safeName
  split
  · exact (Lengthens.refl _).underscore
  · exact .refl name

theorem Lengthens.trans {a b c : String} (hab : Lengthens a b) (hbc : Lengthens b c) :
    Lengthens a c := by
  obtain ⟨n, hn⟩ := hab
  obtain ⟨k, hk⟩ := hbc
  refine ⟨n + k, ?_⟩
  rw [hk, hn, List.append_assoc, List.replicate_append_replicate]

theorem argumentName_lengthens (taken : List String) (name : String) :
    Lengthens name (argumentName taken name) :=
  (lengthens_safeName name).trans (search_argumentName taken name).lengthens

/-- No keyword ends with an underscore. -/
theorem notKeyword_of_underscore {name : String} (h : name.toList.getLast? = some '_') :
    name ∉ keywords := by
  have letters : ∀ k ∈ keywords, k.toList.getLast? ≠ some '_' := by decide
  intro hmem
  exact letters name hmem h

/-- No keyword ends with an underscore, so a safe name is none. -/
theorem safeName_notKeyword (name : String) : safeName name ∉ keywords := by
  unfold safeName
  by_cases hkeyword : name ∈ keywords
  · simp only [List.contains_iff_mem, hkeyword, if_true]
    exact notKeyword_of_underscore (by simp)
  · simpa only [List.contains_iff_mem, hkeyword, if_false] using hkeyword

theorem Lengthens.notKeyword {name arg : String} (h : Lengthens name arg)
    (hname : name ∉ keywords) :
    arg ∉ keywords := by
  obtain ⟨n, hn⟩ := h
  cases n with
  | zero =>
      rw [List.replicate_zero, List.append_nil] at hn
      rwa [String.toList_inj.mp hn]
  | succ n =>
      refine notKeyword_of_underscore ?_
      rw [hn, List.replicate_succ', ← List.append_assoc, List.getLast?_append]
      rfl

/-- An argument is never named by a keyword. -/
theorem argumentName_notKeyword (taken : List String) (name : String) :
    argumentName taken name ∉ keywords :=
  (search_argumentName taken name).lengthens.notKeyword (safeName_notKeyword name)

/-! ### Names in a row -/

section Row

variable (taken : List String)

/-- Names are chosen one after another, and those chosen before are taken. -/
theorem argumentNames_append (names more : List String) :
    (argumentNames taken (names ++ more)).1 =
      (argumentNames taken names).1 ++ (argumentNames (argumentNames taken names).2 more).1 := by
  induction names generalizing taken with
  | nil => rfl
  | cons name names ih =>
      simp only [List.cons_append, argumentNames]
      rw [ih]

theorem argumentNames_lengthens (names : List String) :
    List.Forall₂ Lengthens names (argumentNames taken names).1 := by
  induction names generalizing taken with
  | nil => exact .nil
  | cons name names ih => exact .cons (argumentName_lengthens taken name) (ih _)

theorem argumentNames_notKeyword (names : List String) :
    ∀ arg ∈ (argumentNames taken names).1, arg ∉ keywords := by
  induction names generalizing taken with
  | nil => simp [argumentNames]
  | cons name names ih => exact List.forall_mem_cons.mpr ⟨argumentName_notKeyword taken name, ih _⟩

theorem argumentNames_notMem (names : List String) :
    ∀ arg ∈ (argumentNames taken names).1, arg ∉ taken := by
  induction names generalizing taken with
  | nil => simp [argumentNames]
  | cons name names ih =>
      refine List.forall_mem_cons.mpr ⟨(search_argumentName taken name).notMem, ?_⟩
      intro arg harg hmem
      exact ih _ arg harg (List.mem_cons_of_mem _ hmem)

/-- Each name is chosen once. -/
theorem argumentNames_nodup (names : List String) : (argumentNames taken names).1.Nodup := by
  induction names generalizing taken with
  | nil => simp [argumentNames]
  | cons name names ih =>
      -- The later names are looked for with this one taken.
      refine List.nodup_cons.mpr ⟨fun hmem => ?_, ih _⟩
      exact argumentNames_notMem _ names _ hmem List.mem_cons_self

end Row

/-! ### Handlers -/

theorem replaceChar_of_notMem {old new : Char} {cs : List Char} (h : old ∉ cs) :
    replaceChar old new cs = cs := by
  refine (List.map_congr_left fun c hc => ?_).trans (List.map_id cs)
  exact if_neg fun heq : c = old => h (heq ▸ hc)

namespace Handler

/-- The names of the arguments of a handler, in the order of its signature. -/
def argNames (h : Handler) : List String :=
  h.pathArgs.map (·.name) ++ (h.bodyArg.toList.map (·.name) ++ h.queryArgs.map (·.name))

/-- The query parameters of a route that are not in its path. -/
def freeQuery (r : Route) : List Parameter :=
  r.queryParams.filter fun q => !(r.pathParams.map (·.name)).contains q.name

/-- What the arguments of a handler are named after: the path parameters, the body, and the other
query parameters. -/
def namesFor (r : Route) : List String :=
  r.pathParams.map (·.name) ++ (r.body.toList.map (fun _ => "body") ++ (freeQuery r).map (·.name))

/-- The body argument is named like any other. -/
theorem argumentNames_body (taken : List String) (body : Option RequestBody) :
    argumentNames taken (body.toList.map fun _ => "body") =
      ((body.map (BodyArgument.mk (argumentName taken "body"))).toList.map (·.name),
        (body.map (BodyArgument.mk (argumentName taken "body"))).toList.map (·.name) ++ taken) := by
  cases body with
  | none => rfl
  | some body => rfl

theorem query_aligned (r : Route) (taken : List String) :
    let names := (freeQuery r).map (·.name)
    let args := argumentsFor (freeQuery r) names (argumentNames taken names).1
    args.map (·.key) = names ∧ args.map (·.name) = (argumentNames taken names).1 := by
  have hpairs : List.Forall₂ (fun p key => Parameter.name p = key) (freeQuery r)
      ((freeQuery r).map (·.name)) := by
    rw [List.forall₂_map_right_iff, List.forall₂_same]
    exact fun _ _ => rfl
  obtain ⟨keys, names, -⟩ := argumentsFor_aligned hpairs
    (show (argumentNames taken ((freeQuery r).map (·.name))).1.length = _ by
      rw [length_argumentNames, List.length_map])
  exact ⟨keys, names⟩

theorem keys_queryArgs (r : Route) (count : Nat) :
    (ofRoute r count).queryArgs.map (·.key) = (freeQuery r).map (·.name) :=
  (query_aligned r _).1

/-- All arguments of a handler are named in one row. -/
theorem argNames_ofRoute {r : Route} (hbuilt : r.Built) (count : Nat) :
    (ofRoute r count).argNames = (argumentNames handlerLocals (namesFor r)).1 := by
  have hserves := ofRoute_serves hbuilt count
  have all : r.pathParams.take (pathKeys r.path).length = r.pathParams := by
    rw [← (pathParams_pathKeys hbuilt).length_eq, List.take_length]
  -- What is taken when the body is named.
  let taken :=
    (argumentNames handlerLocals ((r.pathParams.take (pathKeys r.path).length).map (·.name))).2
  have hbody : (ofRoute r count).bodyArg.toList.map (·.name) =
      (argumentNames taken (r.body.toList.map fun _ => "body")).1 := by
    rw [argumentNames_body]
    rfl
  have hquery : (ofRoute r count).queryArgs.map (·.name) =
      (argumentNames (argumentNames taken (r.body.toList.map fun _ => "body")).2
        ((freeQuery r).map (·.name))).1 := by
    rw [argumentNames_body]
    exact (query_aligned r _).2
  rw [argNames, namesFor, argumentNames_append, argumentNames_append, hserves.names, hbody, hquery]
  simp only [taken, all]

/-- A query parameter without a dot in its name is not a variable of the path: it would be the name
of the parameter for this variable. -/
theorem queryKey_ne_pathKey {r : Route} (hbuilt : r.Built) (count : Nat)
    (hdots : ∀ q ∈ r.queryParams, '.' ∉ q.name.toList) :
    ∀ a ∈ (ofRoute r count).queryArgs, ∀ b ∈ (ofRoute r count).pathArgs, a.key ≠ b.key := by
  intro a ha b hb hsame
  have hkey : a.key ∈ (freeQuery r).map (·.name) := keys_queryArgs r count ▸ List.mem_map_of_mem ha
  obtain ⟨q, hq, hname⟩ := List.mem_map.mp hkey
  obtain ⟨hquery, hfree⟩ := List.mem_filter.mp hq
  obtain ⟨p, hp, hbinds, -⟩ := exists_of_mem_forall₂ (ofRoute_serves hbuilt count).params hb
  have plain : replaceChar '.' '_' b.key.toList = b.key.toList := by
    rw [← hsame, ← hname]
    exact replaceChar_of_notMem (hdots q hquery)
  have hbound : p.name = q.name := by
    rw [hbinds, plain, String.ofList_toList, ← hsame, hname]
  have : q.name ∈ r.pathParams.map (·.name) := hbound ▸ List.mem_map_of_mem hp
  simp [this] at hfree

end Handler

/-- **The arguments of a handler never clash.** Every search for a name ends. Names that are found
one after another, with `self` and `request` taken before, are pairwise different, none of them is
`self`, `request` or a keyword, and each is the name that it was found for with underscores behind
it. So the handlers of a service, one for each of its routes, have different arguments for the path
parameters, the body and the other query parameters; and query parameters without a dot in their
names are put under other keys than path parameters. -/
theorem handler_arguments_never_clash :
    (∀ taken name, Search taken (safeName name) (argumentName taken name)) ∧
    (∀ names, (argumentNames handlerLocals names).1.Nodup ∧
      (∀ arg ∈ (argumentNames handlerLocals names).1, arg ≠ "self" ∧ arg ≠ "request" ∧
        arg ∉ keywords) ∧
      List.Forall₂ Lengthens names (argumentNames handlerLocals names).1) ∧
    (∀ settings f routes, Route.ofFile settings f = .ok routes → ∀ s,
      List.Forall₂ (fun r h =>
          h.argNames.Nodup ∧ List.Forall₂ Lengthens (Handler.namesFor r) h.argNames ∧
          ((∀ q ∈ r.queryParams, '.' ∉ q.name.toList) →
            ∀ a ∈ h.queryArgs, ∀ b ∈ h.pathArgs, a.key ≠ b.key))
        (routesOf s routes) (Controller.ofService s routes).handlers) := by
  refine ⟨search_argumentName, fun names => ?_, fun settings f routes hroutes s => ?_⟩
  · refine ⟨argumentNames_nodup _ names, fun arg harg => ?_, argumentNames_lengthens _ names⟩
    have hlocal : arg ∉ handlerLocals := argumentNames_notMem _ names arg harg
    simp only [handlerLocals, List.mem_cons, List.not_mem_nil, or_false, not_or] at hlocal
    exact ⟨hlocal.1, hlocal.2, argumentNames_notKeyword _ names arg harg⟩
  · refine Handler.forall₂_ofRoutes (fun r hr count => ?_) []
    have hbuilt := Route.built_of_ofFile hroutes r (List.mem_filter.mp hr).1
    rw [Handler.argNames_ofRoute hbuilt count]
    exact ⟨argumentNames_nodup _ _, argumentNames_lengthens _ _,
      Handler.queryKey_ne_pathKey hbuilt count⟩

/-- A service with a method whose variables are called like its body, a keyword and the argument for
it. -/
def archive : Service :=
  ⟨"Archive", [⟨"Put", ⟨"Page", none, false⟩, ⟨"Page", none, false⟩, [], [],
    some ⟨⟨.post, "/{body}/{class}/{class_}", some "*"⟩, none, []⟩⟩], [], []⟩

theorem handler_arguments_never_clash_archive :
    ∃ r, Route.ofFile { commonQueryParams := ["class", "body_"] }
        { SchemaFile.empty with services := [archive] } = .ok [r] ∧
      (Controller.ofService archive [r]).handlers.map Handler.argNames =
        [["body", "class_", "class__", "body_", "body__"]] ∧
      ∀ h ∈ (Controller.ofService archive [r]).handlers, h.argNames.Nodup := by
  have hroutes : Route.ofFile { commonQueryParams := ["class", "body_"] }
      { SchemaFile.empty with services := [archive] } =
      .ok [⟨"Archive", "Put", .post, "/{body}/{class}/{class_}",
        [⟨"body", .string⟩, ⟨"class", .string⟩, ⟨"class_", .string⟩],
        [⟨"class", .string⟩, ⟨"body_", .string⟩],
        some .entire, ⟨"Page", none, false⟩, ⟨"Page", none, false⟩⟩] := by
    rfl
  refine ⟨_, hroutes, by decide +kernel, fun h hh => ?_⟩
  obtain ⟨r, -, hnodup, -⟩ :=
    exists_of_mem_forall₂ (handler_arguments_never_clash.2.2 _ _ _ hroutes archive) hh
  exact hnodup

/-! ### Legal names -/

/-- A name that an argument can have: letters, digits and the like, and no keyword. -/
def IsLegal (name : String) : Prop :=
  isName name.toList = true ∧ name ∉ keywords

theorem isNameContinue_underscore : Text.isNameContinue '_' = true := by
  decide

/-- Underscores behind a name play no part for whether it is legal. -/
theorem Lengthens.isName_eq {name arg : String} (h : Lengthens name arg) (hname : name ≠ "") :
    isName arg.toList = isName name.toList := by
  obtain ⟨n, hn⟩ := h
  rw [hn]
  cases hchars : name.toList with
  | nil => exact absurd (String.toList_eq_nil_iff.mp hchars) hname
  | cons c cs => simp [isName, isNameContinue_underscore]

/-- Settings that pass the check have common query parameters that are names. -/
theorem isName_of_check {settings : Settings} (h : settings.check = .ok ()) :
    ∀ name ∈ settings.extractor.commonQueryParams, isName name.toList = true := by
  unfold Settings.check at h
  simp only at h
  split at h
  · split at h <;> cases h
  · split at h
    · cases h
    · next hfind =>
        intro name hname
        simpa using List.find?_eq_none.mp hfind name hname

namespace Handler

/-- The arguments of a handler are legal if the parameters in the path are. -/
theorem argNames_legal_iff {r : Route} (hbuilt : r.Built) (count : Nat)
    (hquery : ∀ q ∈ r.queryParams, isName q.name.toList = true) :
    (∀ arg ∈ (ofRoute r count).argNames, IsLegal arg) ↔ ∀ p ∈ r.pathParams,
      isName p.name.toList = true := by
  have hfree : ∀ q ∈ freeQuery r, isName q.name.toList = true :=
    fun q hq => hquery q (List.mem_of_mem_filter hq)
  -- None of the names is empty, so that underscores behind them do not matter.
  have hnames : ∀ name ∈ namesFor r, name ≠ "" := by
    intro name hname
    simp only [namesFor, List.mem_append, List.mem_map] at hname
    rcases hname with ⟨p, hp, rfl⟩ | ⟨_, -, rfl⟩ | ⟨q, hq, rfl⟩
    · exact hbuilt.name_ne_empty p hp
    · decide
    · intro hempty
      have := hfree q hq
      rw [hempty] at this
      cases this
  have hrow := argumentNames_lengthens handlerLocals (namesFor r)
  have hkeywords := argumentNames_notKeyword handlerLocals (namesFor r)
  rw [← argNames_ofRoute hbuilt count] at hrow hkeywords
  constructor
  · intro hlegal p hp
    have hmem : p.name ∈ namesFor r := List.mem_append_left _ (List.mem_map_of_mem hp)
    obtain ⟨arg, harg, hlengthens⟩ := exists_of_mem_forall₂ hrow.flip hmem
    rw [← Lengthens.isName_eq hlengthens (hnames _ hmem)]
    exact (hlegal arg harg).1
  · intro hpath arg harg
    obtain ⟨name, hname, hlengthens⟩ := exists_of_mem_forall₂ hrow harg
    refine ⟨?_, hkeywords arg harg⟩
    rw [hlengthens.isName_eq (hnames name hname)]
    simp only [namesFor, List.mem_append, List.mem_map] at hname
    rcases hname with ⟨p, hp, rfl⟩ | ⟨_, -, rfl⟩ | ⟨q, hq, rfl⟩
    · exact hpath p hp
    · decide
    · exact hfree q hq

end Handler

/-- **The arguments of a handler have legal names if and only if the path parameters of its route
do.** With settings that pass their check, the body and the query parameters always have them, and
neither the underscores behind a name nor a keyword make a difference. -/
theorem argument_names_legal_iff_path_names {settings : Settings} {f : SchemaFile}
    {routes : List Route} (hsettings : settings.check = .ok ())
    (hroutes : Route.extract settings.extractor f = .ok routes) (s : Service) :
    List.Forall₂ (fun r h =>
        (∀ arg ∈ h.argNames, IsLegal arg) ↔ ∀ p ∈ r.pathParams, isName p.name.toList = true)
      (routesOf s routes) (Controller.ofService s routes).handlers := by
  have hfile := Route.ofFile_of_extract hroutes
  refine Handler.forall₂_ofRoutes (fun r hr count => ?_) []
  have hmem : r ∈ routes := (List.mem_filter.mp hr).1
  refine Handler.argNames_legal_iff (Route.built_of_ofFile hfile r hmem) count fun q hq => ?_
  obtain ⟨_, -, m, -, b, hbuild⟩ := Route.exists_build_of_mem_ofFile hfile hmem
  obtain ⟨-, -, params, -, rfl⟩ := Route.build_eq_ok hbuild
  exact isName_of_check hsettings q.name (Route.mem_queryFor hq)

/-- The variables of this service are legal, although one of them is a keyword. -/
theorem argument_names_legal_archive :
    ∃ r, Route.extract {} { SchemaFile.empty with services := [archive] } = .ok [r] ∧
      ∀ h ∈ (Controller.ofService archive [r]).handlers, ∀ arg ∈ h.argNames, IsLegal arg := by
  have hroutes :
      Route.extract ({} : Settings).extractor { SchemaFile.empty with services := [archive] } =
      .ok [⟨"Archive", "Put", .post, "/{body}/{class}/{class_}",
        [⟨"body", .string⟩, ⟨"class", .string⟩, ⟨"class_", .string⟩],
        ["page", "limit", "offset", "sort", "order", "filter", "search"].map .ofName,
        some .entire, ⟨"Page", none, false⟩, ⟨"Page", none, false⟩⟩] := by
    rfl
  refine ⟨_, hroutes, fun h hh => ?_⟩
  obtain ⟨r, hr, hlegal⟩ := exists_of_mem_forall₂
    (argument_names_legal_iff_path_names (by decide) hroutes archive) hh
  refine hlegal.mpr ?_
  rw [List.mem_singleton.mp (List.mem_of_mem_filter hr)]
  decide

/-- A text with a hyphen in a variable of the path. -/
def hyphenated : String :=
  "service S \x7b rpc M(A) returns (A) \x7b option (google.api.http) = " ++
    "\x7b get: \"/\x7ba-b\x7d\" \x7d; \x7d \x7d"

/-- The routes pass every check, and an argument is called `a-b`. -/
theorem argument_name_illegal_hyphen :
    ∃ f routes, Grammar.parse ⟨true, false⟩ hyphenated = .ok f ∧
      Route.extract ({} : Settings).extractor f = .ok routes ∧ ({} : Settings).check = .ok () ∧
      ∃ s ∈ f.services, ∃ h ∈ (Controller.ofService s routes).handlers, ∃ arg ∈ h.argNames,
        ¬ IsLegal arg := by
  obtain ⟨f, routes, hread, hroutes, s, hs, hnames⟩ :=
    @Grammar.exists_service_of_toOption _ _ _ ⟨true, false⟩
    hyphenated (Route.extract ({} : Settings).extractor)
    (fun s routes => (Controller.ofService s routes).handlers.map fun h => h.argNames.head?)
    [some "a-b"] (by decide +kernel)
  obtain ⟨h, hh, hhead⟩ := List.mem_map.mp (hnames ▸ List.mem_singleton_self (some "a-b"))
  refine ⟨f, routes, hread, hroutes, by decide, s, hs, h, hh, "a-b", List.mem_of_head? hhead, ?_⟩
  intro hlegal
  exact absurd hlegal.1 (by decide +kernel)

end ProtoRoutes.Scaffold
