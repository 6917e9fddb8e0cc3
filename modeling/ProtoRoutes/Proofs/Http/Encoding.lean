import ProtoRoutes.Proofs.Grammar.Printable

/-!
# ProtoRoutes.Proofs.Http.Encoding

An HTTP rule that is written as a value is decoded to the same rule, and the value can be written
down.

A decoder looks keys up one by one, wherever they stand. The encoding puts the verb first, and none
of the keys behind it gives a verb, so that there is one pattern and no more.
-/

namespace ProtoRoutes

open Source (isIdent)

/-! ### Verbs and paths -/

/-- The keys that give a verb and a path. -/
def patternKeys : List String :=
  ["get", "post", "put", "patch", "delete", "custom"]

theorem HttpMethod.field_standard {m : HttpMethod} (h : m ∈ standard.map Prod.snd) (path : String) :
    ∃ key, (key, m) ∈ standard ∧ m.field path = (key, .string path) := by
  simp only [standard, List.map_cons, List.map_nil, List.mem_cons, List.not_mem_nil, or_false] at h
  rcases h with rfl | rfl | rfl | rfl | rfl
  · exact ⟨"get", by decide, rfl⟩
  · exact ⟨"post", by decide, rfl⟩
  · exact ⟨"put", by decide, rfl⟩
  · exact ⟨"patch", by decide, rfl⟩
  · exact ⟨"delete", by decide, rfl⟩

/-- A custom verb is no standard verb, even if it is spelled like one. -/
theorem HttpMethod.field_custom {m : HttpMethod} (h : m = .ofKind m.verb) (path : String) :
    m.field path = ("custom", .message [("kind", .string m.verb), ("path", .string path)]) := by
  have custom : m.custom = true := by rw [h]; rfl
  have none : standard.find? (·.2 = m) = none := by
    rw [List.find?_eq_none]
    intro e he heq
    have plain : ∀ e ∈ standard, e.2.custom = false := by decide
    have clash := plain e he
    rw [of_decide_eq_true heq, custom] at clash
    cases clash
  rw [field, none]

theorem HttpMethod.field_key {m : HttpMethod} (h : m.Printable) (path : String) :
    (m.field path).1 ∈ patternKeys := by
  rcases h with h | ⟨-, h⟩
  · obtain ⟨key, hkey, hfield⟩ := field_standard h path
    rw [hfield]
    have keys : ∀ e ∈ standard, e.1 ∈ patternKeys := by decide
    exact keys _ hkey
  · rw [field_custom h path]
    simp [patternKeys]

namespace HttpRule

theorem mapM_ok {α β : Type} {f : α → Except RuleError β} {g : α → β} {as : List α}
    (h : ∀ a ∈ as, f a = .ok (g a)) : as.mapM f = .ok (as.map g) := by
  induction as with
  | nil => rfl
  | cons a as ih =>
      rw [List.mapM_cons, h a List.mem_cons_self, ih fun b hb => h b (List.mem_cons_of_mem a hb)]
      rfl

/-- The first key is found first. -/
theorem lookup_cons_ne {k : String} {entry : String × Value} {others : List (String × Value)}
    (h : k ≠ entry.1) : (entry :: others).lookup k = others.lookup k := by
  rw [List.lookup_cons, beq_false_of_ne h]

theorem pattern_eq_ok {fields : List (String × Value)} {m : HttpMethod} {path : String}
    {each : String × HttpMethod → List (HttpMethod × String)} {custom : List (HttpMethod × String)}
    (hstandard : ∀ e ∈ HttpMethod.standard, standardPattern fields e = .ok (each e))
    (hcustom : customPattern fields = .ok custom)
    (hone : (HttpMethod.standard.map each).flatten ++ custom = [(m, path)]) :
    pattern fields = .ok (m, path) := by
  unfold pattern
  rw [mapM_ok hstandard, hcustom]
  simp only [bind, Except.bind, hone]

/-- The verb and the path in front of fields that give none. -/
theorem pattern_field {m : HttpMethod} (hm : m.Printable) (path : String)
    {others : List (String × Value)} (h : ∀ key ∈ patternKeys, others.lookup key = none) :
    pattern (m.field path :: others) = .ok (m, path) := by
  have keys : ∀ e ∈ HttpMethod.standard, e.1 ∈ patternKeys ∧ e.1 ≠ "custom" := by decide
  rcases hm with hm | ⟨hverb, hkind⟩
  · obtain ⟨key, hkey, hfield⟩ := HttpMethod.field_standard hm path
    rw [hfield]
    have each : ∀ e ∈ HttpMethod.standard, standardPattern ((key, .string path) :: others) e =
        .ok (if e.1 = key then [(e.2, path)] else []) := by
      intro e he
      rw [standardPattern]
      by_cases heq : e.1 = key
      · rw [heq, List.lookup_cons_self, if_pos rfl]
      · rw [lookup_cons_ne heq, h _ (keys e he).1, if_neg heq]
    have custom : customPattern ((key, .string path) :: others) = .ok [] := by
      rw [customPattern, lookup_cons_ne (keys _ hkey).2.symm, h _ (by decide)]
    refine pattern_eq_ok each custom ?_
    simp only [HttpMethod.standard, List.mem_cons, List.not_mem_nil, or_false, Prod.mk.injEq]
      at hkey
    rcases hkey with ⟨rfl, rfl⟩ | ⟨rfl, rfl⟩ | ⟨rfl, rfl⟩ | ⟨rfl, rfl⟩ | ⟨rfl, rfl⟩ <;> rfl
  · rw [HttpMethod.field_custom hkind path]
    have each : ∀ e ∈ HttpMethod.standard, standardPattern (("custom", .message
        [("kind", .string m.verb), ("path", .string path)]) :: others) e = .ok [] := by
      intro e he
      rw [standardPattern, lookup_cons_ne (keys e he).2, h _ (keys e he).1]
    have custom : customPattern (("custom", .message
        [("kind", .string m.verb), ("path", .string path)]) :: others) = .ok [(m, path)] := by
      have kind : m.verb.isEmpty = false := by simpa using hverb
      rw [customPattern, List.lookup_cons_self]
      show (if m.verb.isEmpty then _ else Except.ok [(HttpMethod.ofKind m.verb, path)]) = _
      rw [kind, ← hkind]
      rfl
    exact pattern_eq_ok each custom rfl

/-! ### Rules -/

theorem patternKeys_ne : ∀ k ∈ patternKeys,
    k ≠ "body" ∧ k ≠ "response_body" ∧ k ≠ "additional_bindings" := by
  decide

/-- A key that gives no verb is looked up behind the verb. -/
theorem lookup_behind_field {m : HttpMethod} (hm : m.Printable) (path : String) {k : String}
    (hk : k ∉ patternKeys) (others : List (String × Value)) :
    (m.field path :: others).lookup k = others.lookup k := by
  refine lookup_cons_ne fun heq => hk ?_
  rw [heq]
  exact HttpMethod.field_key hm path

theorem lookup_textField (key k : String) (text : Option String) (others : List (String × Value)) :
    (textField key text ++ others).lookup k =
      if k = key then (text.map .string).or (others.lookup k) else others.lookup k := by
  unfold textField
  cases text with
  | none => simp
  | some s =>
      by_cases h : k = key
      · rw [if_pos h, h]
        exact List.lookup_cons_self
      · rw [if_neg h]
        exact lookup_cons_ne h

theorem optionalString_eq {fields : List (String × Value)} {key : String} {text : Option String}
    (h : fields.lookup key = text.map .string) : optionalString fields key = .ok text := by
  rw [optionalString, h]
  cases text <;> rfl

theorem decodeBinding_encode {b : HttpBinding} (h : b.method.Printable) :
    decodeBinding b.encode = .ok b := by
  obtain ⟨m, path, body⟩ := b
  have fields : ∀ k, (textField "body" body).lookup k =
      if k = "body" then body.map .string else none := by
    intro k
    simpa using lookup_textField "body" k body []
  have absent : ∀ k ∈ patternKeys, (textField "body" body).lookup k = none := by
    intro k hk
    rw [fields, if_neg (patternKeys_ne k hk).1]
  have single : ((m.field path :: textField "body" body).lookup "additional_bindings").isSome =
      false := by
    rw [lookup_behind_field h path (by decide), fields]
    rfl
  have hbody : optionalString (m.field path :: textField "body" body) "body" = .ok body := by
    refine optionalString_eq ?_
    rw [lookup_behind_field h path (by decide), fields, if_pos rfl]
  rw [decodeBinding, HttpBinding.encode]
  simp only [messageFields, bind, Except.bind, single, pattern_field h path absent, hbody]
  rfl

theorem decode_encode {r : HttpRule} (h : r.Printable) : decode r.encode = .ok r := by
  obtain ⟨⟨m, path, body⟩, responseBody, additional⟩ := r
  have hm : m.Printable := h.primary
  have bindings : (additional.map HttpBinding.encode).mapM decodeBinding = .ok additional := by
    rw [List.mapM_map]
    have each := mapM_ok (f := decodeBinding ∘ HttpBinding.encode) (g := id) fun b hb =>
      decodeBinding_encode (h.additional b hb)
    rwa [List.map_id] at each
  -- The fields behind the verb.
  generalize hothers : textField "body" body ++ textField "response_body" responseBody ++
    [("additional_bindings", .list (additional.map HttpBinding.encode))] = others
  have absent : ∀ k ∈ patternKeys, others.lookup k = none := by
    intro k hk
    obtain ⟨hbody, hresponse, hadditional⟩ := patternKeys_ne k hk
    rw [← hothers, List.append_assoc, lookup_textField, if_neg hbody, lookup_textField,
      if_neg hresponse, lookup_cons_ne hadditional, List.lookup_nil]
  have hbody : optionalString (m.field path :: others) "body" = .ok body := by
    refine optionalString_eq ?_
    rw [lookup_behind_field hm path (by decide), ← hothers, List.append_assoc, lookup_textField,
      if_pos rfl, lookup_textField, if_neg (by decide), lookup_cons_ne (by simp), List.lookup_nil,
      Option.or_none]
  have hresponse : optionalString (m.field path :: others) "response_body" = .ok responseBody := by
    refine optionalString_eq ?_
    rw [lookup_behind_field hm path (by decide), ← hothers, List.append_assoc, lookup_textField,
      if_neg (by decide), lookup_textField, if_pos rfl, lookup_cons_ne (by simp), List.lookup_nil,
      Option.or_none]
  have hvalues : bindingValues (m.field path :: others) = additional.map HttpBinding.encode := by
    rw [bindingValues, lookup_behind_field hm path (by decide), ← hothers, List.append_assoc,
      lookup_textField, if_neg (by decide), lookup_textField, if_neg (by decide),
      List.lookup_cons_self]
  rw [decode, encode, hothers]
  simp only [messageFields, bind, Except.bind, pattern_field hm path absent, hbody, hresponse,
    hvalues, bindings]

/-! ### Rules as values -/

theorem message_printable {room : Nat} {fields : List (String × Value)}
    (h : ∀ f ∈ fields, IsLiteralKey f.1 ∧ f.2.Printable room)
    (hdistinct : (fields.map Prod.fst).Nodup) :
    (Value.message fields).Printable (room + 1) :=
  .message (fun f hf => (h f hf).1) hdistinct fun f hf => (h f hf).2

theorem textField_printable {key : String} (hkey : isIdent key = true) (text : Option String)
    (room : Nat) : ∀ f ∈ textField key text, IsLiteralKey f.1 ∧ f.2.Printable room := by
  intro f hf
  obtain ⟨s, -, rfl⟩ := List.mem_map.mp hf
  exact ⟨.name hkey, .string room s⟩

/-- There is at most one field with a text. -/
theorem textField_keys (key : String) (text : Option String) :
    ((textField key text).map Prod.fst).Sublist [key] := by
  cases text with
  | none => exact List.nil_sublist _
  | some s => exact List.Sublist.refl _

theorem field_printable {m : HttpMethod} (h : m.Printable) (path : String) (room : Nat) :
    IsLiteralKey (m.field path).1 ∧ (m.field path).2.Printable (room + 1) := by
  refine ⟨.name ?_, ?_⟩
  · have idents : ∀ k ∈ patternKeys, isIdent k = true := by decide
    exact idents _ (HttpMethod.field_key h path)
  · rcases h with h | ⟨-, h⟩
    · obtain ⟨key, -, hfield⟩ := HttpMethod.field_standard h path
      rw [hfield]
      exact .string _ path
    · rw [HttpMethod.field_custom h path]
      refine message_printable ?_ (by simp)
      rw [List.forall_mem_cons, List.forall_mem_singleton]
      have kind : IsLiteralKey "kind" := .name (by decide)
      have path : IsLiteralKey "path" := .name (by decide)
      exact ⟨⟨kind, .string room _⟩, path, .string room _⟩

theorem encodeBinding_printable {b : HttpBinding} (h : b.method.Printable) (room : Nat) :
    b.encode.Printable (room + 2) := by
  refine message_printable ?_ ?_
  · exact List.forall_mem_cons.mpr
      ⟨field_printable h b.path room, textField_printable (by decide) _ _⟩
  · have keys : (b.method.field b.path).1 ∉ ["body"] := by
      simpa using (patternKeys_ne _ (HttpMethod.field_key h b.path)).1
    rw [List.map_cons]
    exact List.Nodup.sublist ((textField_keys "body" b.body).cons_cons _)
      (List.nodup_cons.mpr ⟨keys, by decide⟩)

theorem encode_printable {r : HttpRule} (h : r.Printable) (room : Nat) :
    r.encode.Printable (room + 3) := by
  refine message_printable ?_ ?_
  · refine List.forall_mem_cons.mpr ⟨field_printable h.primary _ (room + 1), ?_⟩
    refine List.forall_mem_append.mpr ⟨List.forall_mem_append.mpr
      ⟨textField_printable (by decide) _ _, textField_printable (by decide) _ _⟩, ?_⟩
    have key : IsLiteralKey "additional_bindings" := .name (by decide)
    refine List.forall_mem_singleton.mpr ⟨key, .list fun v hv => ?_⟩
    obtain ⟨b, hb, rfl⟩ := List.mem_map.mp hv
    exact encodeBinding_printable (h.additional b hb) room
  · have keys : (r.primary.method.field r.primary.path).1 ∉
        ["body", "response_body", "additional_bindings"] := by
      simpa using patternKeys_ne _ (HttpMethod.field_key h.primary r.primary.path)
    have others : ((textField "body" r.primary.body ++ textField "response_body" r.responseBody ++
        [("additional_bindings", Value.list (r.additional.map HttpBinding.encode))]).map
        Prod.fst).Sublist
        (["body"] ++ ["response_body"] ++ ["additional_bindings"]) := by
      rw [List.map_append, List.map_append]
      exact ((textField_keys _ _).append (textField_keys _ _)).append (List.Sublist.refl _)
    rw [List.map_cons]
    exact List.Nodup.sublist (others.cons_cons _) (List.nodup_cons.mpr ⟨keys, by decide⟩)

end HttpRule

end ProtoRoutes
