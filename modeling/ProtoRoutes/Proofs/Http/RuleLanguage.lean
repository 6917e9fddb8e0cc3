import ProtoRoutes.Proofs.Http.Encoding
import ProtoRoutes.Proofs.Http.Templates

/-!
# ProtoRoutes.Proofs.Http.RuleLanguage

The values that stand for HTTP rules. `Value.DenotesRule` says which rule a value stands for, in
terms of what is found under the keys of a message literal: one key gives the verb and the path, and
all other keys that could do so are absent. Decoding finds this rule for every value that stands for
one, and refuses all others.

A decoder reads nothing but the values of certain keys. So the order of the keys and the keys that
are not read make no difference, at the top as well as inside of a custom verb or of an additional
binding.
-/

namespace ProtoRoutes

theorem except_bind_eq_ok_iff {ε α β : Type} {x : Except ε α} {f : α → Except ε β} {b : β} :
    (x >>= f) = .ok b ↔ ∃ a, x = .ok a ∧ f a = .ok b := by
  cases x with
  | error e => simp [bind, Except.bind]
  | ok a => simp [bind, Except.bind]

theorem mapM_eq_of_forall₂ {ε α β γ : Type} {f : α → Except ε γ} {g : β → Except ε γ} {as : List α}
    {bs : List β} (h : List.Forall₂ (fun a b => f a = g b) as bs) : as.mapM f = bs.mapM g := by
  induction h with
  | nil => rfl
  | cons hab _ ih => rw [List.mapM_cons, List.mapM_cons, hab, ih]

/-- Of different keys, it does not matter which comes first. -/
theorem lookup_perm {β : Type} {fields fields' : List (String × β)} (h : fields.Perm fields')
    (hkeys : (fields.map Prod.fst).Nodup) (key : String) :
      fields.lookup key = fields'.lookup key := by
  induction h with
  | nil => rfl
  | cons entry _ ih => rw [List.lookup_cons, List.lookup_cons, ih (List.nodup_cons.mp hkeys).2]
  | swap e e' fields =>
      obtain ⟨k, v⟩ := e
      obtain ⟨k', v'⟩ := e'
      have apart : k' ≠ k := fun heq => (List.nodup_cons.mp hkeys).1 (heq ▸ List.mem_cons_self)
      simp only [List.lookup_cons]
      cases hk : key == k with
      | false => rfl
      | true =>
          have other : (key == k') = false := by
            rw [eq_of_beq hk]
            exact beq_false_of_ne apart.symm
          rw [other]
  | trans h _ ih ih' => exact (ih hkeys).trans (ih' ((h.map Prod.fst).nodup_iff.mp hkeys))

/-! ### Values that stand for rules -/

/-- What a key that may be missing holds: a text or nothing. -/
def TextAt (fields : List (String × Value)) (key : String) (text : Option String) : Prop :=
  fields.lookup key = text.map .string

/-- The verb and the path under a key. -/
inductive PatternAt (fields : List (String × Value)) : String → HttpMethod → String → Prop where
  | standard {key : String} {method : HttpMethod} {path : String}
      (hkey : (key, method) ∈ HttpMethod.standard)
      (hpath : fields.lookup key = some (.string path)) :
      PatternAt fields key method path
  | custom {inner : List (String × Value)} {kind path : String}
      (hcustom : fields.lookup "custom" = some (.message inner))
      (hkind : inner.lookup "kind" = some (.string kind)) (hnonempty : kind ≠ "")
      (hpath : inner.lookup "path" = some (.string path)) :
      PatternAt fields "custom" (.ofKind kind) path

/-- One of the keys that give a verb and a path is present, and no other. -/
def HasPattern (fields : List (String × Value)) (method : HttpMethod) (path : String) : Prop :=
  ∃ key ∈ patternKeys, PatternAt fields key method path ∧
    ∀ other ∈ patternKeys, other ≠ key → fields.lookup other = none

/-- A value that stands for a binding inside of a rule. -/
inductive Value.DenotesBinding : Value → HttpBinding → Prop where
  | message {fields : List (String × Value)} {b : HttpBinding}
      (hflat : fields.lookup "additional_bindings" = none)
      (hpattern : HasPattern fields b.method b.path)
      (hbody : TextAt fields "body" b.body) : DenotesBinding (.message fields) b

/-- What the key of the additional bindings holds: nothing, one of them, or a list of them. -/
inductive BindingsAt (fields : List (String × Value)) : List HttpBinding → Prop where
  | absent (h : fields.lookup "additional_bindings" = none) : BindingsAt fields []
  | single {v : Value} {b : HttpBinding} (h : fields.lookup "additional_bindings" = some v)
      (hv : v.DenotesBinding b) : BindingsAt fields [b]
  | list {items : List Value} {bs : List HttpBinding}
      (h : fields.lookup "additional_bindings" = some (.list items))
      (hitems : List.Forall₂ Value.DenotesBinding items bs) : BindingsAt fields bs

/-- A value that stands for a rule. -/
inductive Value.DenotesRule : Value → HttpRule → Prop where
  | message {fields : List (String × Value)} {rule : HttpRule}
      (hpattern : HasPattern fields rule.primary.method rule.primary.path)
      (hbody : TextAt fields "body" rule.primary.body)
      (hresponse : TextAt fields "response_body" rule.responseBody)
      (hadditional : BindingsAt fields rule.additional) : DenotesRule (.message fields) rule

namespace HttpRule

variable {fields fields' : List (String × Value)}

/-! ### Keys -/

theorem messageFields_eq_ok_iff {context : String} {v : Value} :
    messageFields context v = .ok fields ↔ v = .message fields := by
  cases v <;> simp [messageFields]

theorem optionalString_eq_ok_iff {key : String} {text : Option String} :
    optionalString fields key = .ok text ↔ TextAt fields key text := by
  refine ⟨fun h => ?_, optionalString_eq⟩
  unfold optionalString at h
  unfold TextAt
  split at h
  · next hnone =>
      cases h
      exact hnone
  · next s hsome =>
      cases h
      exact hsome
  · cases h

/-! ### Verbs and paths -/

/-- What a look at a key finds: nothing, or the one pattern under it. -/
def FoundAt (fields : List (String × Value)) (key : String) (found : List (HttpMethod × String)) :
    Prop :=
  (fields.lookup key = none ∧ found = []) ∨
    ∃ method path, PatternAt fields key method path ∧ found = [(method, path)]

theorem standard_key_ne_custom : ∀ e ∈ HttpMethod.standard, e.1 ≠ "custom" := by
  decide

/-- The key of a standard verb may be missing, and else it has a text. -/
theorem standardPattern_eq_ok_iff {entry : String × HttpMethod}
    (hentry : entry ∈ HttpMethod.standard) {found : List (HttpMethod × String)} :
    standardPattern fields entry = .ok found ↔ FoundAt fields entry.1 found := by
  obtain ⟨key, method⟩ := entry
  have unique : ∀ e ∈ HttpMethod.standard, ∀ e' ∈ HttpMethod.standard, e.1 = e'.1 → e.2 = e'.2 := by
    decide
  constructor
  · intro h
    unfold standardPattern at h
    split at h
    · next hnone =>
        cases h
        exact .inl ⟨hnone, rfl⟩
    · next path hpath =>
        cases h
        exact .inr ⟨method, path, .standard hentry hpath, rfl⟩
    · cases h
  · rintro (⟨hnone, rfl⟩ | ⟨method', path, hpattern, rfl⟩)
    · simp only [standardPattern, hnone]
    · generalize hkey : key = key' at hpattern
      cases hpattern with
      | standard hentry' hpath =>
          subst hkey
          obtain rfl : method = method' := unique _ hentry _ hentry' rfl
          simp only [standardPattern, hpath]
      | custom => exact absurd hkey (standard_key_ne_custom _ hentry)

/-- The key of a custom verb may be missing, and else it has a literal with a kind and a path. -/
theorem customPattern_eq_ok_iff {found : List (HttpMethod × String)} :
    customPattern fields = .ok found ↔ FoundAt fields "custom" found := by
  constructor
  · intro h
    unfold customPattern at h
    split at h
    · next hnone =>
        cases h
        exact .inl ⟨hnone, rfl⟩
    · next v hv =>
        obtain ⟨inner, hinner, h⟩ := except_bind_eq_ok_iff.mp h
        obtain ⟨kind, hkind, h⟩ := except_bind_eq_ok_iff.mp h
        obtain ⟨path, hpath, h⟩ := except_bind_eq_ok_iff.mp h
        rw [messageFields_eq_ok_iff] at hinner
        rw [optionalString_eq_ok_iff] at hkind hpath
        cases kind with
        | none => cases h
        | some kind =>
            cases path with
            | none => cases h
            | some path =>
                by_cases hkind' : kind.isEmpty = true
                · simp [hkind'] at h
                · simp only [hkind', Bool.false_eq_true, if_false, Except.ok.injEq] at h
                  refine .inr ⟨_, path, .custom (hinner ▸ hv) hkind ?_ hpath, h.symm⟩
                  simpa using hkind'
  · rintro (⟨hnone, rfl⟩ | ⟨method, path, hpattern, rfl⟩)
    · simp only [customPattern, hnone]
    · generalize hkey : "custom" = key at hpattern
      cases hpattern with
      | standard hentry => exact absurd hkey.symm (standard_key_ne_custom _ hentry)
      | @custom inner kind path hcustom hkind hnonempty hpath =>
          have nonempty : kind.isEmpty = false := by simpa using hnonempty
          rw [customPattern, hcustom]
          simp only [messageFields, optionalString, hkind, hpath, nonempty, bind, Except.bind]
          rfl

/-- Looks at some keys find nothing if none of them is present. -/
theorem forall₂_foundAt_nil {keys : List String} :
    (∃ found, List.Forall₂ (FoundAt fields) keys found ∧ found.flatten = []) ↔
      ∀ key ∈ keys, fields.lookup key = none := by
  induction keys with
  | nil => simp
  | cons key keys ih =>
      rw [List.forall_mem_cons, ← ih]
      constructor
      · rintro ⟨_, _ | ⟨hkey, hkeys⟩, hnil⟩
        obtain ⟨hhead, htail⟩ := List.append_eq_nil_iff.mp hnil
        rcases hkey with ⟨hnone, -⟩ | ⟨method, path, -, rfl⟩
        · exact ⟨hnone, _, hkeys, htail⟩
        · cases hhead
      · rintro ⟨hnone, found, hkeys, hnil⟩
        exact ⟨[] :: found, .cons (.inl ⟨hnone, rfl⟩) hkeys, hnil⟩

/-- Looks at different keys find one pattern if just one of them is present. -/
theorem forall₂_foundAt_singleton {keys : List String} (hkeys : keys.Nodup) {method : HttpMethod}
    {path : String} :
    (∃ found, List.Forall₂ (FoundAt fields) keys found ∧ found.flatten = [(method, path)]) ↔
      ∃ key ∈ keys, PatternAt fields key method path ∧
        ∀ other ∈ keys, other ≠ key → fields.lookup other = none := by
  induction keys with
  | nil => simp
  | cons key keys ih =>
      obtain ⟨hfresh, hkeys⟩ := List.nodup_cons.mp hkeys
      constructor
      · rintro ⟨_, _ | ⟨hkey, hrest⟩, hone⟩
        -- The pattern is behind the first key, or under it and then there is none behind.
        rcases hkey with ⟨hnone, rfl⟩ | ⟨method', path', hpattern, rfl⟩
        · obtain ⟨k, hk, hpattern, hothers⟩ := (ih hkeys).mp ⟨_, hrest, hone⟩
          exact ⟨k, List.mem_cons_of_mem key hk, hpattern,
            List.forall_mem_cons.mpr ⟨fun _ => hnone, hothers⟩⟩
        · obtain ⟨heq, hnil⟩ := List.cons.inj hone
          cases heq
          have absent := forall₂_foundAt_nil.mp ⟨_, hrest, hnil⟩
          exact ⟨key, List.mem_cons_self, hpattern,
            List.forall_mem_cons.mpr
            ⟨fun hne => absurd rfl hne, fun other hother _ => absent other hother⟩⟩
      · rintro ⟨k, hk, hpattern, hothers⟩
        obtain ⟨hfirst, hrest⟩ := List.forall_mem_cons.mp hothers
        rcases List.mem_cons.mp hk with rfl | hk
        · have absent : ∀ other ∈ keys, fields.lookup other = none := fun other hmem =>
            hrest other hmem fun heq => hfresh (heq ▸ hmem)
          obtain ⟨found, hfound, hnil⟩ := forall₂_foundAt_nil.mpr absent
          refine ⟨[(method, path)] :: found, .cons (.inr ⟨method, path, hpattern, rfl⟩) hfound, ?_⟩
          rw [List.flatten_cons, hnil]
          rfl
        · have hne : key ≠ k := fun heq => hfresh (heq ▸ hk)
          obtain ⟨found, hfound, hone⟩ := (ih hkeys).mpr ⟨k, hk, hpattern, hrest⟩
          exact ⟨[] :: found, .cons (.inl ⟨hfirst hne, rfl⟩) hfound, hone⟩

/-- There is one look at each of the standard keys. -/
theorem mapM_standardPattern_eq_ok_iff {found : List (List (HttpMethod × String))} :
    HttpMethod.standard.mapM (standardPattern fields) = .ok found ↔
      List.Forall₂ (FoundAt fields) (HttpMethod.standard.map Prod.fst) found := by
  rw [mapM_eq_ok_iff, List.forall₂_map_left_iff]
  have each : ∀ {R S : String × HttpMethod → List (HttpMethod × String) → Prop},
      (∀ e ∈ HttpMethod.standard, ∀ l, R e l → S e l) → List.Forall₂ R HttpMethod.standard found →
        List.Forall₂ S HttpMethod.standard found := by
    intro R S himp hall
    exact ((List.forall₂_and_left _ _).mpr ⟨fun e he => he, hall⟩).imp fun e l h => himp e h.1 l h.2
  exact ⟨each fun e he l => (standardPattern_eq_ok_iff he).mp,
    each fun e he l => (standardPattern_eq_ok_iff he).mpr⟩

/-- A pattern is decoded exactly if one verb is given. -/
theorem pattern_eq_ok_iff {method : HttpMethod} {path : String} :
    pattern fields = .ok (method, path) ↔ HasPattern fields method path := by
  unfold HasPattern
  rw [← forall₂_foundAt_singleton (by decide)]
  unfold pattern
  constructor
  · intro h
    obtain ⟨standard, hstandard, h⟩ := except_bind_eq_ok_iff.mp h
    obtain ⟨custom, hcustom, h⟩ := except_bind_eq_ok_iff.mp h
    rw [mapM_standardPattern_eq_ok_iff] at hstandard
    rw [customPattern_eq_ok_iff] at hcustom
    refine ⟨standard ++ [custom], List.rel_append hstandard (.cons hcustom .nil), ?_⟩
    rw [List.flatten_append, List.flatten_singleton]
    split at h
    · cases h
    · next hone =>
        cases h
        exact hone
    · cases h
  · rintro ⟨found, hfound, hone⟩
    -- Five looks at the standard keys, and the last one at the key of custom verbs.
    have hstandard := mapM_standardPattern_eq_ok_iff.mpr (List.forall₂_take 5 hfound)
    obtain ⟨custom, _, hcustom, hnil, hlast⟩ :=
      List.forall₂_cons_left_iff.mp (List.forall₂_drop 5 hfound)
    obtain rfl := List.forall₂_nil_left_iff.mp hnil
    rw [← List.take_append_drop 5 found, hlast, List.flatten_append, List.flatten_singleton] at hone
    rw [hstandard, customPattern_eq_ok_iff.mpr hcustom]
    simp only [bind, Except.bind, hone]

/-! ### Rules -/

/-- A binding is decoded exactly if the value stands for it. -/
theorem decodeBinding_eq_ok_iff {v : Value} {b : HttpBinding} :
    decodeBinding v = .ok b ↔ v.DenotesBinding b := by
  unfold decodeBinding
  constructor
  · intro h
    obtain ⟨fields, hfields, hread⟩ := except_bind_eq_ok_iff.mp h
    obtain rfl := messageFields_eq_ok_iff.mp hfields
    cases hflat : fields.lookup "additional_bindings" with
    | some _ =>
        rw [hflat] at hread
        cases hread
    | none =>
        rw [hflat] at hread
        obtain ⟨⟨method, path⟩, hpattern, hread⟩ := except_bind_eq_ok_iff.mp hread
        obtain ⟨body, hbody, hread⟩ := except_bind_eq_ok_iff.mp hread
        cases hread
        exact .message hflat (pattern_eq_ok_iff.mp hpattern) (optionalString_eq_ok_iff.mp hbody)
  · rintro ⟨hflat, hpattern, hbody⟩
    simp only [messageFields, bind, Except.bind, hflat, pattern_eq_ok_iff.mpr hpattern,
      optionalString_eq_ok_iff.mpr hbody]
    rfl

theorem mapM_decodeBinding_eq_ok_iff {bs : List HttpBinding} :
    (bindingValues fields).mapM decodeBinding = .ok bs ↔ BindingsAt fields bs := by
  simp only [mapM_eq_ok_iff, decodeBinding_eq_ok_iff]
  constructor
  · intro h
    unfold bindingValues at h
    split at h
    · next hnone =>
        obtain rfl := List.forall₂_nil_left_iff.mp h
        exact .absent hnone
    · next items hitems => exact .list hitems h
    · next v hv =>
        obtain ⟨b, _, hb, hnil, rfl⟩ := List.forall₂_cons_left_iff.mp h
        obtain rfl := List.forall₂_nil_left_iff.mp hnil
        exact .single hv hb
  · intro h
    cases h with
    | absent hnone =>
        rw [bindingValues, hnone]
        exact .nil
    | single hv hb =>
        cases hb with
        | message hflat hpattern hbody =>
            rw [bindingValues, hv]
            exact .cons (.message hflat hpattern hbody) .nil
    | list hlist hitems =>
        rw [bindingValues, hlist]
        exact hitems

/-- Decoding finds the rule that a value stands for. -/
theorem decode_eq_ok_iff {v : Value} {rule : HttpRule} :
    decode v = .ok rule ↔ v.DenotesRule rule := by
  unfold decode
  constructor
  · intro h
    obtain ⟨fields, hfields, hread⟩ := except_bind_eq_ok_iff.mp h
    obtain rfl := messageFields_eq_ok_iff.mp hfields
    obtain ⟨⟨method, path⟩, hpattern, hread⟩ := except_bind_eq_ok_iff.mp hread
    obtain ⟨body, hbody, hread⟩ := except_bind_eq_ok_iff.mp hread
    obtain ⟨response, hresponse, hread⟩ := except_bind_eq_ok_iff.mp hread
    obtain ⟨additional, hadditional, hread⟩ := except_bind_eq_ok_iff.mp hread
    cases hread
    exact .message (pattern_eq_ok_iff.mp hpattern) (optionalString_eq_ok_iff.mp hbody)
      (optionalString_eq_ok_iff.mp hresponse) (mapM_decodeBinding_eq_ok_iff.mp hadditional)
  · rintro ⟨hpattern, hbody, hresponse, hadditional⟩
    simp only [messageFields, bind, Except.bind, pattern_eq_ok_iff.mpr hpattern,
      optionalString_eq_ok_iff.mpr hbody, optionalString_eq_ok_iff.mpr hresponse,
      mapM_decodeBinding_eq_ok_iff.mpr hadditional]

end HttpRule

/-! ### Keys that are read -/

namespace Value

/-- Custom verbs that agree in all that is read of them. -/
inductive SameCustom : Value → Value → Prop where
  | refl (v : Value) : SameCustom v v
  | message {fields fields' : List (String × Value)}
      (hkind : fields.lookup "kind" = fields'.lookup "kind")
      (hpath : fields.lookup "path" = fields'.lookup "path") :
      SameCustom (.message fields) (.message fields')

/-- Fields that agree in all that is read of a verb and a path. -/
structure SamePattern (fields fields' : List (String × Value)) : Prop where
  standard : ∀ entry ∈ HttpMethod.standard, fields.lookup entry.1 = fields'.lookup entry.1
  custom : Option.Rel SameCustom (fields.lookup "custom") (fields'.lookup "custom")

/-- Bindings inside of rules that agree in all that is read of them. -/
inductive SameBinding : Value → Value → Prop where
  | refl (v : Value) : SameBinding v v
  | message {fields fields' : List (String × Value)} (hpattern : SamePattern fields fields')
      (hbody : fields.lookup "body" = fields'.lookup "body")
      (hnested : (fields.lookup "additional_bindings").isSome =
        (fields'.lookup "additional_bindings").isSome) :
      SameBinding (.message fields) (.message fields')

/-- Values for the key of the additional bindings that agree in all that is read of them. -/
inductive SameBindings : Value → Value → Prop where
  | single {v w : Value} (h : SameBinding v w) : SameBindings v w
  | list {items items' : List Value} (h : List.Forall₂ SameBinding items items') :
      SameBindings (.list items) (.list items')

/-- Rules that agree in all that is read of them. They may differ in the order of the keys and in
other keys, also inside of custom verbs and of bindings. -/
inductive SameRule : Value → Value → Prop where
  | refl (v : Value) : SameRule v v
  | message {fields fields' : List (String × Value)} (hpattern : SamePattern fields fields')
      (hbody : fields.lookup "body" = fields'.lookup "body")
      (hresponse : fields.lookup "response_body" = fields'.lookup "response_body")
      (hadditional : Option.Rel SameBindings (fields.lookup "additional_bindings")
        (fields'.lookup "additional_bindings")) :
      SameRule (.message fields) (.message fields')

theorem sameRule_of_lookup {fields fields' : List (String × Value)}
    (h : ∀ key, fields.lookup key = fields'.lookup key) :
      SameRule (.message fields) (.message fields') := by
  refine .message ⟨fun entry _ => h entry.1, ?_⟩ (h _) (h _) ?_
  · rw [h]
    cases fields'.lookup "custom" with
    | none => exact .none
    | some v => exact .some (.refl v)
  · rw [h]
    cases fields'.lookup "additional_bindings" with
    | none => exact .none
    | some v => exact .some (.single (.refl v))

end Value

namespace HttpRule

variable {fields fields' : List (String × Value)}

theorem optionalString_congr {key : String} (h : fields.lookup key = fields'.lookup key) :
    optionalString fields key = optionalString fields' key := by
  rw [optionalString, optionalString, h]

theorem customPattern_congr
    (h : Option.Rel Value.SameCustom (fields.lookup "custom") (fields'.lookup "custom")) :
    customPattern fields = customPattern fields' := by
  unfold customPattern
  generalize fields.lookup "custom" = v, fields'.lookup "custom" = w at h
  cases h with
  | none => rfl
  | some h =>
      cases h with
      | refl v => rfl
      | message hkind hpath =>
          simp only [messageFields, optionalString_congr hkind, optionalString_congr hpath, bind,
            Except.bind]

theorem pattern_congr (h : Value.SamePattern fields fields') :
    pattern fields = pattern fields' := by
  have standard : HttpMethod.standard.mapM (standardPattern fields) =
      HttpMethod.standard.mapM (standardPattern fields') := by
    refine mapM_eq_of_forall₂ (List.forall₂_same.mpr fun entry hentry => ?_)
    rw [standardPattern, standardPattern, h.standard entry hentry]
  rw [pattern, pattern, standard, customPattern_congr h.custom]

theorem decodeBinding_congr {v w : Value} (h : v.SameBinding w) :
    decodeBinding v = decodeBinding w := by
  cases h with
  | refl => rfl
  | message hpattern hbody hnested =>
      simp only [decodeBinding, messageFields, bind, Except.bind, hnested, pattern_congr hpattern,
        optionalString_congr hbody]

theorem mapM_decodeBinding_congr
    (h : Option.Rel Value.SameBindings (fields.lookup "additional_bindings")
      (fields'.lookup "additional_bindings")) :
    (bindingValues fields).mapM decodeBinding = (bindingValues fields').mapM decodeBinding := by
  unfold bindingValues
  generalize fields.lookup "additional_bindings" = v, fields'.lookup "additional_bindings" = w at h
  cases h with
  | none => rfl
  | some h =>
      cases h with
      | list hitems => exact mapM_eq_of_forall₂ (hitems.imp fun _ _ => decodeBinding_congr)
      | single h =>
          cases h with
          | refl => rfl
          | message hpattern hbody hnested =>
              exact mapM_eq_of_forall₂
                (.cons (decodeBinding_congr (.message hpattern hbody hnested)) .nil)

/-- Values with the same rule are decoded in the same way, errors included. -/
theorem decode_congr {v w : Value} (h : v.SameRule w) : decode v = decode w := by
  cases h with
  | refl => rfl
  | message hpattern hbody hresponse hadditional =>
      simp only [decode, messageFields, bind, Except.bind, pattern_congr hpattern,
        optionalString_congr hbody,
        optionalString_congr hresponse, mapM_decodeBinding_congr hadditional]

/-! ### Decoding -/

/-- **Decoding accepts exactly the values that stand for rules,** and finds the rules that they
stand for. It refuses all other values. Neither the order of the keys nor a key that is not read
changes the outcome. A rule that is written as a value is found again. -/
theorem decode_accepts_exactly_rules :
    (∀ v rule, decode v = .ok rule ↔ v.DenotesRule rule) ∧
    (∀ v, (¬ ∃ rule, v.DenotesRule rule) → ∃ e, decode v = .error e) ∧
    (∀ v w, v.SameRule w → decode v = decode w) ∧
    (∀ fields fields', fields.Perm fields' → (fields.map Prod.fst).Nodup →
      decode (.message fields) = decode (.message fields')) ∧
    (∀ rule : HttpRule, rule.Printable → decode rule.encode = .ok rule) := by
  refine ⟨fun v rule => decode_eq_ok_iff, fun v hnone => ?_, fun v w => decode_congr, ?_,
    fun rule => decode_encode⟩
  · cases hdecode : decode v with
    | error e => exact ⟨e, rfl⟩
    | ok rule => exact absurd ⟨rule, decode_eq_ok_iff.mp hdecode⟩ hnone
  · intro fields fields' hperm hkeys
    exact decode_congr (Value.sameRule_of_lookup fun key => lookup_perm hperm hkeys key)

/-- A rule with an additional binding that has a custom verb. -/
def searchRule : HttpRule :=
  ⟨⟨.post, "/books", some "*"⟩, none, [⟨⟨"SEARCH", true⟩, "/shelves", none⟩]⟩

/-- The same rule with its keys in another order and with keys that are not read. -/
def searchValue : Value :=
  .message [("note", .boolean true),
    ("additional_bindings", .list [.message [("response_body", .boolean true),
      ("custom",
      .message [("path", .string "/shelves"), ("note", .list []), ("kind", .string "SEARCH")])]]),
    ("body", .string "*"), ("post", .string "/books")]

theorem decode_accepts_exactly_rules_reordered :
    decode searchRule.encode = .ok searchRule ∧ decode searchValue = .ok searchRule ∧
    ∃ e, decode (.message [("get", .string "/a"), ("post", .string "/a")]) = .error e := by
  obtain ⟨found, refused, same, -, encoded⟩ := decode_accepts_exactly_rules
  have printable : searchRule.Printable :=
    ⟨.inl (by decide), fun b hb => .inr (by obtain rfl := List.mem_singleton.mp hb; decide)⟩
  have binding : Value.SamePattern
      [("custom", .message [("kind", .string "SEARCH"), ("path", .string "/shelves")])]
      [("response_body", .boolean true),
      ("custom", .message [("path", .string "/shelves"), ("note", .list []),
        ("kind", .string "SEARCH")])] := by
    refine ⟨fun entry hentry => ?_, .some (.message rfl rfl)⟩
    simp only [HttpMethod.standard, List.mem_cons, List.not_mem_nil, or_false] at hentry
    rcases hentry with rfl | rfl | rfl | rfl | rfl <;> rfl
  have agree : searchRule.encode.SameRule searchValue := by
    refine .message ⟨fun entry hentry => ?_, .none⟩ rfl rfl
      (.some (.list (.cons (.message binding rfl rfl) .nil)))
    simp only [HttpMethod.standard, List.mem_cons, List.not_mem_nil, or_false] at hentry
    rcases hentry with rfl | rfl | rfl | rfl | rfl <;> rfl
  refine ⟨encoded _ printable, (same _ _ agree).symm.trans (encoded _ printable), refused _ ?_⟩
  rintro ⟨rule, hrule⟩
  cases (found _ _).mpr hrule

end HttpRule

end ProtoRoutes
