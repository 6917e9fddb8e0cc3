import ProtoRoutes.Proofs.Grammar.Runs
import ProtoRoutes.Proofs.Http.Templates

/-!
# ProtoRoutes.Proofs.Http.MalformedRules

What becomes of an HTTP rule that cannot be decoded. Reading a method leaves such a rule among the
options of the method, for the extraction of routes to report. The extraction looks at the options
only if reading has found no rule, so it depends on the other option statements of the method:

* if none of them holds a rule, the extraction fails;
* if one of them does, in front or behind, the malformed rules count for nothing.
-/

namespace ProtoRoutes

open Grammar (splitRule)

/-! ### Option statements -/

namespace HttpRule

/-- Whether an option is named like an HTTP rule and holds one. -/
def isDecodable (o : SchemaOption) : Bool :=
  isHttpOption o && (decode o.value).toOption.isSome

/-- Whether an option is named like an HTTP rule and holds none. -/
def isMalformed (o : SchemaOption) : Bool :=
  isHttpOption o && (decode o.value).toOption.isNone

theorem isDecodable_of_decode {o : SchemaOption} {rule : HttpRule} (hname : isHttpOption o = true)
    (hdecode : decode o.value = .ok rule) : isDecodable o = true ∧ isMalformed o = false := by
  simp [isDecodable, isMalformed, hname, hdecode, Except.toOption]

theorem isDecodable_of_decode_error {o : SchemaOption} {e : RuleError}
    (hdecode : decode o.value = .error e) : isDecodable o = false := by
  simp [isDecodable, hdecode, Except.toOption]

end HttpRule

open HttpRule (isDecodable isMalformed isHttpOption)

/-- The first rule that can be decoded is taken out of the options, and all else stays. -/
theorem splitRule_cases (written : List SchemaOption) :
    (written.any isDecodable = false ∧ (splitRule written).rule = none ∧
      (splitRule written).options = written) ∨
    ∃ front o back rule, written = front ++ o :: back ∧ isDecodable o = true ∧
      isMalformed o = false ∧
      (splitRule written).rule = some rule ∧ (splitRule written).options = front ++ back := by
  induction written with
  | nil => exact .inl ⟨rfl, rfl, rfl⟩
  | cons o rest ih =>
      -- An option that is kept joins the front of what happens to the rest.
      have kept : isDecodable o = false → (splitRule (o :: rest)).rule = (splitRule rest).rule →
          (splitRule (o :: rest)).options = o :: (splitRule rest).options →
          ((o :: rest).any isDecodable = false ∧ (splitRule (o :: rest)).rule = none ∧
            (splitRule (o :: rest)).options = o :: rest) ∨
          ∃ front p back rule, o :: rest = front ++ p :: back ∧ isDecodable p = true ∧
            isMalformed p = false ∧ (splitRule (o :: rest)).rule = some rule ∧
            (splitRule (o :: rest)).options = front ++ back := by
        intro ho hrule hoptions
        rw [hrule, hoptions]
        rcases ih with ⟨hnone, hrest, hall⟩ | ⟨front, p, back, rule, rfl, hp, hp', hrest, hall⟩
        · exact .inl ⟨by rw [List.any_cons, ho, hnone]; rfl, hrest, by rw [hall]⟩
        · exact .inr ⟨o :: front, p, back, rule, rfl, hp, hp', hrest, by rw [hall]; rfl⟩
      cases hname : isHttpOption o with
      | false =>
          refine kept (by simp [isDecodable, hname]) ?_ ?_
          · simp [splitRule, hname]
          · simp [splitRule, hname]
      | true =>
          cases hdecode : HttpRule.decode o.value with
          | error e =>
              refine kept (HttpRule.isDecodable_of_decode_error hdecode) ?_ ?_
              · simp [splitRule, hname, hdecode]
              · simp [splitRule, hname, hdecode]
          | ok rule =>
              obtain ⟨ho, ho'⟩ := HttpRule.isDecodable_of_decode hname hdecode
              refine .inr ⟨[], o, rest, rule, rfl, ho, ho', ?_, ?_⟩
              · simp [splitRule, hname, hdecode]
              · simp [splitRule, hname, hdecode]

namespace Method

/-- A method is what the reading makes of one with these option statements. -/
structure IsWritten (m : Method) (written : List SchemaOption) : Prop where
  rule : m.rule = (splitRule written).rule
  options : m.options = (splitRule written).options

variable {m : Method} {written : List SchemaOption}

/-- Reading finds a rule where one can be decoded. -/
theorem IsWritten.rule_isSome (h : m.IsWritten written) :
    m.rule.isSome = written.any isDecodable := by
  rw [h.rule]
  rcases splitRule_cases written with ⟨hnone, hrule, -⟩ | ⟨front, o, back, rule, rfl,
    ho, -, hrule, -⟩
  · rw [hrule, hnone]
    rfl
  · rw [hrule]
    simp [ho]

/-- Malformed rules stay where they are. -/
theorem IsWritten.any_isMalformed (h : m.IsWritten written) :
    m.options.any isMalformed = written.any isMalformed := by
  rw [h.options]
  rcases splitRule_cases written with ⟨-, -, hoptions⟩ | ⟨front, o, back, rule, rfl, -,
    ho, -, hoptions⟩
  · rw [hoptions]
  · rw [hoptions]
    simp [ho]

/-- Without a rule all statements stay. -/
theorem IsWritten.options_eq (h : m.IsWritten written) (hnone : written.any isDecodable = false) :
    m.options = written := by
  rw [h.options]
  rcases splitRule_cases written with ⟨-, -, hoptions⟩ | ⟨front, o, back, rule, rfl, ho, -⟩
  · exact hoptions
  · simp [ho] at hnone

end Method

/-! ### Reading -/

namespace Grammar

/-- Every method of a service is what the reading makes of some option statements. -/
def AllWritten (s : Service) : Prop :=
  ∀ m ∈ s.methods, ∃ written, m.IsWritten written

theorem method_ensures (mode : Mode) :
    Ensures (fun m => ∃ written, m.IsWritten written) (method mode) := by
  unfold method
  refine .andThen (takeComments mode) fun before => ?_
  refine .andThen (expectKeyword .rpcKw) fun _ => ?_
  refine .andThen (expectName .methodName) fun name => ?_
  refine .andThen methodType fun input => ?_
  refine .andThen (expectKeyword .returnsKw) fun _ => ?_
  refine .andThen methodType fun output => ?_
  refine .andThen (methodBody mode) fun written => ?_
  refine .andThen (defer name.text (splitRule written).errors) fun _ => ?_
  exact .andThen (takeTrailing mode) fun behind => .pure ⟨written, rfl, rfl⟩

theorem serviceItem_ensures (mode : Mode) (s : Service) (t : Token) (hs : AllWritten s) :
    Ensures AllWritten (serviceItem mode s t) := by
  unfold serviceItem
  split
  · refine (method_ensures mode).bind fun m hm => ?_
    refine .andThen (declare mode _ _ _) fun _ => .pure ?_
    exact List.forall_mem_append.mpr ⟨hs, by simpa using hm⟩
  · exact .andThen (optionStatement mode maxDepth) fun o => .pure hs
  · exact .andThen advance fun _ => .pure hs
  · exact .fail

theorem service_ensures (mode : Mode) : Ensures AllWritten (service mode) := by
  unfold service
  refine .andThen (takeComments mode) fun before => ?_
  refine .andThen (expectKeyword .serviceKw) fun _ => ?_
  refine .andThen (expectName .serviceName) fun name => ?_
  refine .andThen (expectSign .lbrace) fun _ => ?_
  have start : AllWritten ⟨name.text, [], [], before⟩ := fun m hm => nomatch hm
  refine (Ensures.iterate (serviceItem_ensures mode) start).bind fun s hs => ?_
  refine .andThen (expectSign .rbrace) fun _ => ?_
  exact .andThen (takeTrailing mode) fun behind => .pure hs

theorem headerItem_services (mode : Mode) (f : SchemaFile) (t : Token) (hf : f.services = []) :
    Ensures (fun g => g.services = []) (headerItem mode f t) := by
  unfold headerItem
  split
  · split
    · exact .fail
    · exact .andThen (package mode) fun _ => .pure hf
  · exact .andThen (importStatement mode) fun _ => .pure hf
  · exact .andThen (optionStatement mode maxDepth) fun _ => .pure hf
  · exact .andThen advance fun _ => .pure hf

theorem definition_ensures (mode : Mode) (f : SchemaFile) (t : Token)
    (hf : ∀ s ∈ f.services, AllWritten s) :
    Ensures (fun g => ∀ s ∈ g.services, AllWritten s) (definition mode f t) := by
  unfold definition
  simp only
  split
  · refine (service_ensures mode).bind fun s hs => ?_
    refine .andThen (declare mode _ _ _) fun _ => .pure ?_
    exact List.forall_mem_append.mpr ⟨hf, by simpa using hs⟩
  · exact .andThen (message mode maxDepth) fun m => .andThen (declare mode _ _ _) fun _ => .pure hf
  · exact .andThen (enumeration mode maxDepth) fun e => .andThen (declare mode _ _ _) fun _ =>
      .pure hf
  · exact .andThen advance fun _ => .pure hf
  · exact .fail
  · exact .fail

/-- All methods of a file that was read are what the reading makes of option statements. -/
theorem file_ensures (mode : Mode) :
    Ensures (fun f => ∀ s ∈ f.services, AllWritten s) (file mode) := by
  have empty (v : Version) : Ensures (fun f : SchemaFile => f.services = [])
      (pure { SchemaFile.empty with version := v }) := .pure rfl
  have header : Ensures (fun f => f.services = []) (header mode) := by
    unfold header
    refine .andThen peek fun t => ?_
    dsimp only
    split
    · refine .andThen (version mode) fun v => ?_
      exact (empty v).bind fun f hf => .iterate (headerItem_services mode) hf
    · exact (empty .proto3).bind fun f hf => .iterate (headerItem_services mode) hf
  refine header.bind fun f hf => ?_
  refine .iterate (definition_ensures mode) ?_
  rw [hf]
  exact fun s hs => nomatch hs

theorem parse_allWritten {mode : Mode} {text : String} {f : SchemaFile}
    (hread : parse mode text = .ok f) :
    ∀ s ∈ f.services, AllWritten s := by
  obtain ⟨stream, -, htokens⟩ := parse_ok hread
  obtain ⟨c, hfile⟩ := readTokens_ok htokens
  exact file_ensures mode _ _ _ hfile

end Grammar

/-! ### Extraction -/

/-- A failure for one member is a failure for the list. -/
theorem mapM_error_of_mem {ε α β : Type} {f : α → Except ε β} {as : List α} {a : α} (ha : a ∈ as)
    {e : ε} (hfail : f a = .error e) : ∃ e', as.mapM f = .error e' := by
  induction as with
  | nil => cases ha
  | cons b as ih =>
      rw [List.mapM_cons]
      cases hb : f b with
      | error e' => exact ⟨e', rfl⟩
      | ok c =>
          rcases List.mem_cons.mp ha with rfl | ha
          · rw [hfail] at hb
            cases hb
          · obtain ⟨e', hrest⟩ := ih ha
            exact ⟨e', by rw [hrest]; rfl⟩

theorem mapM_map_congr {ε α β : Type} {f g : α → Except ε β} {h : α → α} {as : List α}
    (hsame : ∀ a ∈ as, g (h a) = f a) : (as.map h).mapM g = as.mapM f := by
  induction as with
  | nil => rfl
  | cons a as ih =>
      rw [List.map_cons, List.mapM_cons, List.mapM_cons, hsame a List.mem_cons_self,
        ih fun b hb => hsame b (List.mem_cons_of_mem a hb)]

/-- A method without the malformed rules among its options. -/
def Method.withoutMalformed (m : Method) : Method :=
  { m with options := m.options.filter (!isMalformed ·) }

/-- A service without the malformed rules among the options of its methods. -/
def Service.withoutMalformed (s : Service) : Service :=
  { s with methods := s.methods.map Method.withoutMalformed }

/-- A file without the malformed rules among the options of its methods. -/
def SchemaFile.withoutMalformed (f : SchemaFile) : SchemaFile :=
  { f with services := f.services.map Service.withoutMalformed }

namespace Method

variable {m : Method} {written : List SchemaOption}

/-- Where all rules are malformed, the first of them is the error. -/
theorem httpRule_of_malformed (h : m.IsWritten written)
    (hmalformed : written.any isMalformed = true)
    (hnone : written.any isDecodable = false) : ∃ e, m.httpRule = .error e := by
  have hrule : m.rule = none := by
    have none := h.rule_isSome
    rw [hnone] at none
    simpa using none
  unfold httpRule
  rw [hrule, h.options_eq hnone]
  simp only
  cases hfind : written.find? isHttpOption with
  | none =>
      obtain ⟨o, ho, hbad⟩ := List.any_eq_true.mp hmalformed
      have unnamed := List.find?_eq_none.mp hfind o ho
      simp [isMalformed, unnamed] at hbad
  | some o =>
      have named := List.find?_some hfind
      have other := List.any_eq_false.mp hnone o (List.mem_of_find?_eq_some hfind)
      cases hdecode : HttpRule.decode o.value with
      | error e => exact ⟨.rule e, by simp only [hdecode]; rfl⟩
      | ok rule => exact absurd (HttpRule.isDecodable_of_decode named hdecode).1 other

/-- Beside a rule, malformed ones count for nothing. -/
theorem httpRule_withoutMalformed (h : m.IsWritten written)
    (hother : written.any isMalformed = true → written.any isDecodable = true) :
    m.withoutMalformed.httpRule = m.httpRule := by
  cases hrule : m.rule with
  | some rule => simp [httpRule, withoutMalformed, hrule]
  | none =>
      have hnone : written.any isDecodable = false := by rw [← h.rule_isSome, hrule]; rfl
      have hsound : m.options.any isMalformed = false := by
        rw [h.any_isMalformed]
        cases hmalformed : written.any isMalformed with
        | false => rfl
        | true => rw [hother hmalformed] at hnone; cases hnone
      have same : m.options.filter (!isMalformed ·) = m.options := by
        refine List.filter_eq_self.mpr fun o ho => ?_
        simpa using List.any_eq_false.mp hsound o ho
      simp [httpRule, withoutMalformed, same]

end Method

namespace Route

variable (settings : ExtractorSettings) {f : SchemaFile} {s : Service} {m : Method}
  {written : List SchemaOption}

theorem ofMethod_of_malformed (h : m.IsWritten written)
    (hmalformed : written.any isMalformed = true)
    (hnone : written.any isDecodable = false) : ∃ e, ofMethod settings f s m = .error e := by
  obtain ⟨e, hrule⟩ := Method.httpRule_of_malformed h hmalformed hnone
  exact ⟨e, by rw [ofMethod, hrule]; rfl⟩

/-- A method whose rules are all malformed fails the extraction of its file. -/
theorem ofFile_of_malformed (hs : s ∈ f.services) (hm : m ∈ s.methods) (h : m.IsWritten written)
    (hmalformed : written.any isMalformed = true) (hnone : written.any isDecodable = false) :
    ∃ e, ofFile settings f = .error e := by
  obtain ⟨e, hmethod⟩ := ofMethod_of_malformed settings (f := f) (s := s) h hmalformed hnone
  obtain ⟨e, hmethods⟩ := mapM_error_of_mem hm hmethod
  have hservice : ofService settings f s = .error e := by rw [ofService, hmethods]; rfl
  obtain ⟨e, hservices⟩ := mapM_error_of_mem hs hservice
  exact ⟨e, by rw [ofFile, hservices]; rfl⟩

theorem ofMethod_withoutMalformed (h : m.IsWritten written)
    (hother : written.any isMalformed = true → written.any isDecodable = true) :
    ofMethod settings f.withoutMalformed s.withoutMalformed m.withoutMalformed =
      ofMethod settings f s m := by
  unfold ofMethod
  rw [Method.httpRule_withoutMalformed h hother]
  rfl

/-- If every malformed rule stands beside one that can be decoded, the extraction does not see it.
-/
theorem ofFile_withoutMalformed
    (hall : ∀ s ∈ f.services, ∀ m ∈ s.methods, ∃ written, m.IsWritten written ∧
      (written.any isMalformed = true → written.any isDecodable = true)) :
    ofFile settings f.withoutMalformed = ofFile settings f := by
  have services : ∀ s ∈ f.services,
      ofService settings f.withoutMalformed s.withoutMalformed = ofService settings f s := by
    intro s hs
    refine congrArg (Except.map List.flatten) (mapM_map_congr fun m hm => ?_)
    obtain ⟨written, h, hother⟩ := hall s hs m hm
    exact ofMethod_withoutMalformed settings h hother
  exact congrArg (Except.map List.flatten) (mapM_map_congr services)

end Route

/-- **A malformed rule is reported unless another one can be decoded.** Every method of a file that
was read goes back to option statements. If some method has a malformed rule among them and none
that can be decoded, the extraction of routes fails. If every method with a malformed rule also has
one that can be decoded, the extraction comes to the same as without the malformed rules. -/
theorem malformed_rule_reported_unless_another_decodes {mode : Grammar.Mode} {text : String}
    {f : SchemaFile} (hread : Grammar.parse mode text = .ok f) (settings : ExtractorSettings) :
    (∀ s ∈ f.services, ∀ m ∈ s.methods, ∃ written, m.IsWritten written) ∧
    ((∃ s ∈ f.services, ∃ m ∈ s.methods, ∃ written, m.IsWritten written ∧
        written.any isMalformed = true ∧ written.any isDecodable = false) →
      ∃ e, Route.ofFile settings f = .error e) ∧
    ((∀ s ∈ f.services, ∀ m ∈ s.methods, ∀ written, m.IsWritten written →
        written.any isMalformed = true → written.any isDecodable = true) →
      Route.ofFile settings f.withoutMalformed = Route.ofFile settings f) := by
  have hwritten := Grammar.parse_allWritten hread
  refine ⟨hwritten, ?_, fun hother => ?_⟩
  · rintro ⟨s, hs, m, hm, written, h, hmalformed, hnone⟩
    exact Route.ofFile_of_malformed settings hs hm h hmalformed hnone
  · refine Route.ofFile_withoutMalformed settings fun s hs m hm => ?_
    obtain ⟨written, h⟩ := hwritten s hs m hm
    exact ⟨written, h, hother s hs m hm written h⟩

/-- A method with some option statements. -/
def methodWith (statements : String) : String :=
  "service S \x7b rpc M(A) returns (B) \x7b " ++ statements ++ " \x7d \x7d"

/-- A method whose one rule has neither a verb nor a path. -/
theorem malformed_rule_reported_alone :
    ∃ f, Grammar.parse ⟨false, false⟩ (methodWith "option (google.api.http) = \x7b \x7d;") = .ok f ∧
      ∃ e, Route.ofFile {} f = .error e := by
  obtain ⟨f, hread, htest⟩ := Grammar.exists_ok_of_toOption
    (x := Grammar.parse ⟨false, false⟩ (methodWith "option (google.api.http) = \x7b \x7d;"))
    (b := true)
    (g := fun f => f.services.any fun s => s.methods.any fun m =>
    m.options.any isMalformed && m.rule.isNone)
    (by decide +kernel)
  obtain ⟨s, hs, htest⟩ := List.any_eq_true.mp htest
  obtain ⟨m, hm, htest⟩ := List.any_eq_true.mp htest
  rw [Bool.and_eq_true] at htest
  obtain ⟨hwritten, hreport, -⟩ := malformed_rule_reported_unless_another_decodes hread {}
  obtain ⟨written, h⟩ := hwritten s hs m hm
  refine ⟨f, hread, hreport ⟨s, hs, m, hm, written, h, ?_, ?_⟩⟩
  · rw [← h.any_isMalformed]
    exact htest.1
  · rw [← h.rule_isSome]
    exact Option.isSome_eq_false_iff.mpr htest.2

/-- The same rule, with another one behind it: the method carries it, and the routes of the file are
extracted. -/
theorem malformed_rule_unreported_beside_another :
    ∃ f, Grammar.parse ⟨false, false⟩ (methodWith ("option (google.api.http) = \x7b \x7d; " ++
        "option (google.api.http) = \x7b get: \"/x\" \x7d;")) = .ok f ∧
      (∃ s ∈ f.services, ∃ m ∈ s.methods, ∃ o ∈ m.options, isMalformed o = true) ∧
      ∃ r, Route.ofFile {} f = .ok [r] := by
  obtain ⟨f, hread, htest⟩ := Grammar.exists_ok_of_toOption
    (x := Grammar.parse ⟨false, false⟩ (methodWith ("option (google.api.http) = \x7b \x7d; " ++
      "option (google.api.http) = \x7b get: \"/x\" \x7d;")))
    (b := true)
    (g := fun f => (f.services.any fun s => s.methods.any fun m => m.options.any isMalformed) &&
      (Route.ofFile {} f).toOption.any (·.length = 1))
    (by decide +kernel)
  rw [Bool.and_eq_true] at htest
  obtain ⟨s, hs, hmethods⟩ := List.any_eq_true.mp htest.1
  obtain ⟨m, hm, hoptions⟩ := List.any_eq_true.mp hmethods
  refine ⟨f, hread, ⟨s, hs, m, hm, List.any_eq_true.mp hoptions⟩, ?_⟩
  have hroutes := htest.2
  cases hextract : Route.ofFile {} f with
  | error e =>
      rw [hextract] at hroutes
      cases hroutes
  | ok routes =>
      rw [hextract] at hroutes
      obtain ⟨r, rfl⟩ := List.length_eq_one_iff.mp (of_decide_eq_true hroutes)
      exact ⟨r, rfl⟩

end ProtoRoutes
