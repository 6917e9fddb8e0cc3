import ProtoRoutes.Proofs.Grammar.Runs
import ProtoRoutes.Proofs.Http.RuleLanguage

/-!
# ProtoRoutes.Proofs.Grammar.RepeatedKeys

**Keys that occur more than once in a message literal.** Reading a literal comes to a row of
occurrences, each a key with a value, and the fields are made of them one by one. A key with several
occurrences ends up with the list of what they supply, as if it had occurred once
(`gathered_eq_of_split`). Only the first occurrence is looked into, though: a list literal that a
later one gives becomes one item of the list, and is not joined to it. So it matters how values are
spread over occurrences, and exactly in that case (`repeated_key_joins_iff_later_plain`).
-/

namespace ProtoRoutes

namespace Value

variable {fields entries front rest : List (String × Value)} {key other : String} {v w : Value}

/-! ### Occurrences -/

/-- Whether a value is a list literal. -/
def isList : Value → Bool
  | list _ => true
  | _ => false

/-- The values that an occurrence of a key supplies: the items of a list literal, or the value
itself. -/
def parts : Value → List Value
  | list items => items
  | v => [v]

/-- The values that are given to a key, one for each occurrence. -/
def given (key : String) (entries : List (String × Value)) : List Value :=
  (entries.filter (·.1 = key)).map Prod.snd

/-- The fields that occurrences come to. -/
def gathered (entries : List (String × Value)) : List (String × Value) :=
  entries.foldl (fun fields e => addField fields e.1 e.2) []

/-- All occurrences of a key as one of them, with the list of what they supply. It stands where the
first one stood. -/
def joined (key : String) : List (String × Value) → List (String × Value)
  | [] => []
  | (k, v) :: rest =>
    if k = key then (key, list ((v :: given key rest).flatMap parts)) :: rest.filter (·.1 ≠ key)
    else (k, v) :: joined key rest

theorem parts_of_plain (h : v.isList = false) : v.parts = [v] := by
  cases v with
  | list items => cases h
  | _ => rfl

/-- Gathering appends to the parts of what was there. -/
theorem gather_eq (v w : Value) : v.gather w = list (v.parts ++ [w]) := by
  cases v <;> rfl

theorem flatMap_parts_of_plain {vs : List Value} (h : ∀ v ∈ vs, v.isList = false) :
    vs.flatMap parts = vs := by
  rw [List.flatMap_congr fun v hv => parts_of_plain (h v hv)]
  simp

/-- What is gathered from several occurrences: the first one is taken apart, the later ones are not.
-/
theorem foldl_gather (v : Value) {later : List Value} (h : later ≠ []) :
    later.foldl gather v = list (v.parts ++ later) := by
  obtain ⟨w, later, rfl⟩ := List.exists_cons_of_ne_nil h
  clear h
  induction later generalizing v w with
  | nil => exact gather_eq v w
  | cons u later ih =>
      rw [List.foldl_cons, ih, gather_eq]
      simp [parts]

theorem given_cons (key : String) (e : String × Value) (entries : List (String × Value)) :
    given key (e :: entries) =
      if e.1 = key then e.2 :: given key entries else given key entries := by
  unfold given
  by_cases h : e.1 = key
  · simp [h]
  · simp [h]

/-- The first occurrence of a key. -/
theorem exists_split {later : List Value} (h : given key entries = v :: later) :
    ∃ front rest, entries = front ++ (key, v) :: rest ∧ (∀ e ∈ front, e.1 ≠ key) ∧
      given key rest = later := by
  induction entries with
  | nil => cases h
  | cons e entries ih =>
      rw [given_cons] at h
      split at h
      · next hkey =>
          obtain ⟨rfl, rfl⟩ := List.cons.inj h
          exact ⟨[], entries, by rw [← hkey]; rfl, by simp, rfl⟩
      · next hkey =>
          obtain ⟨front, rest, rfl, hfront, hrest⟩ := ih h
          exact ⟨e :: front, rest, rfl, List.forall_mem_cons.mpr ⟨hkey, hfront⟩, hrest⟩

/-- The occurrences of a key are joined at the place of the first one. -/
theorem joined_of_split (hfront : ∀ e ∈ front, e.1 ≠ key) :
    joined key (front ++ (key, v) :: rest) =
      front ++ (key, list ((v :: given key rest).flatMap parts)) :: rest.filter (·.1 ≠ key) := by
  induction front with
  | nil => simp [joined]
  | cons e front ih =>
      rw [List.forall_mem_cons] at hfront
      simp [joined, hfront.1, ih hfront.2]

/-- Joining the occurrences of a key takes nothing from the other keys. -/
theorem given_joined (hother : other ≠ key) (entries : List (String × Value)) :
    given other (joined key entries) = given other entries := by
  have kept (rest : List (String × Value)) :
      given other (rest.filter (·.1 ≠ key)) = given other rest := by
    unfold given
    rw [List.filter_filter]
    congr 1
    refine List.filter_congr fun e _ => ?_
    by_cases he : e.1 = other
    · simp [he, hother]
    · simp [he]
  induction entries with
  | nil => rfl
  | cons e entries ih =>
      obtain ⟨k, v⟩ := e
      by_cases hk : k = key
      · subst hk
        rw [joined, if_pos rfl, given_cons, if_neg hother.symm, given_cons,
          if_neg hother.symm, kept]
      · simp [joined, given_cons, hk, ih]

/-! ### Fields -/

/-- Changes the value of a key. -/
def revise (key : String) (g : Value → Value) (fields : List (String × Value)) :
    List (String × Value) :=
  fields.map fun e => if e.1 = key then (e.1, g e.2) else e

/-- A key that is there already is revised. -/
theorem addField_of_present (h : (fields.lookup key).isSome = true) :
    addField fields key v = revise key (·.gather v) fields := by
  unfold addField
  rw [if_pos h]
  rfl

theorem addField_of_absent (h : fields.lookup key = none) : addField fields key v = fields ++
    [(key, v)] := by
  unfold addField
  rw [h]
  rfl

theorem lookup_cons_eq (key k : String) (v : Value) (fields : List (String × Value)) :
    ((k, v) :: fields).lookup key = if key = k then some v else fields.lookup key := by
  by_cases h : key = k
  · simp [h]
  · rw [List.lookup_cons, beq_false_of_ne h, if_neg h]

theorem lookup_revise (key other : String) (g : Value → Value) (fields : List (String × Value)) :
    (revise key g fields).lookup other =
      if other = key then (fields.lookup other).map g else fields.lookup other := by
  induction fields with
  | nil => simp [revise]
  | cons e fields ih =>
      obtain ⟨k, v⟩ := e
      unfold revise at ih ⊢
      rw [List.map_cons, lookup_cons_eq]
      by_cases hk : k = key
      · subst hk
        rw [if_pos rfl, lookup_cons_eq, ih]
        by_cases ho : other = k
        · simp [ho]
        · simp [ho]
      · rw [if_neg hk, lookup_cons_eq, ih]
        by_cases ho : other = k
        · simp [ho, hk]
        · simp [ho]

/-- One more occurrence: the key has its first value, or one more. No other key changes. -/
theorem lookup_addField (fields : List (String × Value)) (key other : String) (v : Value) :
    (addField fields key v).lookup other =
      if other = key then some ((fields.lookup key).elim v (·.gather v))
      else fields.lookup other := by
  cases hkey : fields.lookup key with
  | some old =>
      rw [addField_of_present (by simp [hkey]), lookup_revise]
      by_cases ho : other = key
      · simp [ho, hkey]
      · simp [ho]
  | none =>
      rw [addField_of_absent hkey, List.lookup_append, lookup_cons_eq]
      by_cases ho : other = key
      · simp [ho, hkey]
      · simp [ho]

/-- What a key has after all occurrences depends on those of this key only. -/
theorem lookup_foldl (key : String) (entries fields : List (String × Value)) :
    (entries.foldl (fun fields e => addField fields e.1 e.2) fields).lookup key =
      (given key entries).foldl (fun found v => some (found.elim v (·.gather v)))
        (fields.lookup key) := by
  induction entries generalizing fields with
  | nil => rfl
  | cons e entries ih =>
      rw [List.foldl_cons, ih, lookup_addField, given_cons]
      by_cases hk : e.1 = key
      · simp [hk]
      · simp [hk, Ne.symm hk]

theorem foldl_elim_gather (v : Value) (later : List Value) :
    later.foldl (fun found w => some (found.elim w (·.gather w))) (some v) =
      some (later.foldl gather v) := by
  induction later generalizing v with
  | nil => rfl
  | cons w later ih => exact ih (v.gather w)

/-- What is found under a key is made of its occurrences alone. -/
theorem lookup_gathered {later : List Value} (h : given key entries = v :: later) :
    (gathered entries).lookup key = some (later.foldl gather v) := by
  unfold gathered
  rw [lookup_foldl, h, List.foldl_cons]
  exact foldl_elim_gather v later

/-! ### Occurrences that are joined -/

theorem revise_revise (key : String) (g h : Value → Value) (fields : List (String × Value)) :
    revise key g (revise key h fields) = revise key (g ∘ h) fields := by
  unfold revise
  rw [List.map_map]
  refine List.map_congr_left fun e _ => ?_
  by_cases he : e.1 = key
  · simp [he]
  · simp [he]

theorem revise_of_absent {g : Value → Value} (h : ∀ e ∈ fields, e.1 ≠ key) :
    revise key g fields = fields := by
  unfold revise
  refine (List.map_congr_left fun e he => ?_).trans (List.map_id fields)
  exact if_neg (h e he)

/-- A change to one key and an occurrence of another one. -/
theorem revise_addField (hother : other ≠ key) (g : Value → Value) (fields : List (String × Value))
    (v : Value) :
    revise key g (addField fields other v) = addField (revise key g fields) other v := by
  have same : (revise key g fields).lookup other = fields.lookup other := by
    rw [lookup_revise, if_neg hother]
  cases h : fields.lookup other with
  | none =>
      rw [addField_of_absent h, addField_of_absent (same.trans h)]
      simp [revise, hother]
  | some old =>
      rw [addField_of_present (by simp [h]), addField_of_present (by simp [same, h])]
      unfold revise
      rw [List.map_map, List.map_map]
      refine List.map_congr_left fun e _ => ?_
      by_cases he : e.1 = key
      · simp [he, Ne.symm hother]
      · by_cases ho : e.1 = other
        · simp [ho, hother]
        · simp [he, ho]

/-- Revising a key may be put off until the entries of other keys are added. -/
theorem revise_foldl (h : ∀ e ∈ entries, e.1 ≠ key) (g : Value → Value)
    (fields : List (String × Value)) :
    revise key g (entries.foldl (fun fields e => addField fields e.1 e.2) fields) =
      entries.foldl (fun fields e => addField fields e.1 e.2) (revise key g fields) := by
  induction entries generalizing fields with
  | nil => rfl
  | cons e entries ih =>
      rw [List.forall_mem_cons] at h
      rw [List.foldl_cons, ih h.2, revise_addField h.1]
      rfl

theorem revise_id (key : String) (fields : List (String × Value)) :
    revise key (fun v => v) fields = fields := by
  unfold revise
  refine (List.map_congr_left fun e _ => ?_).trans (List.map_id fields)
  exact ite_self e

theorem forall_filter_ne (key : String) (entries : List (String × Value)) :
    ∀ e ∈ entries.filter (·.1 ≠ key), e.1 ≠ key := by
  intro e he
  simpa using (List.mem_filter.mp he).2

/-- Behind its first occurrence, all other ones of a key could as well come last. -/
theorem foldl_of_present (entries : List (String × Value)) (h : (fields.lookup key).isSome = true) :
    entries.foldl (fun fields e => addField fields e.1 e.2) fields =
      revise key (fun old => (given key entries).foldl gather old)
        ((entries.filter (·.1 ≠ key)).foldl (fun fields e => addField fields e.1 e.2) fields) := by
  induction entries generalizing fields with
  | nil => exact (revise_id key fields).symm
  | cons e entries ih =>
      have present : ((addField fields e.1 e.2).lookup key).isSome = true := by
        rw [lookup_addField]
        split
        · rfl
        · exact h
      rw [List.foldl_cons, ih present, given_cons]
      by_cases hk : e.1 = key
      · subst hk
        have dropped : (e :: entries).filter (·.1 ≠ e.1) = entries.filter (·.1 ≠ e.1) := by simp
        rw [if_pos rfl, dropped, addField_of_present h,
          ← revise_foldl (forall_filter_ne e.1 entries),
          revise_revise]
        rfl
      · have kept : (e :: entries).filter (·.1 ≠ key) = e :: entries.filter (·.1 ≠ key) := by
          simp [hk]
        rw [if_neg hk, kept, List.foldl_cons]

/-- A key with several occurrences is a key with one of them, which has all that is gathered from
them. -/
theorem gathered_eq_of_split (hfront : ∀ e ∈ front, e.1 ≠ key) :
    gathered (front ++ (key, v) :: rest) =
      gathered (front ++ (key, (given key rest).foldl gather v) :: rest.filter (·.1 ≠ key)) := by
  have absent : (gathered front).lookup key = none := by
    have none : given key front = [] := by simpa [given] using hfront
    unfold gathered
    rw [lookup_foldl, none]
    rfl
  have apart : ∀ e ∈ gathered front, e.1 ≠ key := by
    intro e he heq
    rw [List.lookup_eq_none_iff] at absent
    simpa [heq] using absent e he
  have present : ((gathered front ++ [(key, v)]).lookup key).isSome = true := by
    simp [List.lookup_append, absent]
  have revised (g : Value → Value) :
      revise key g (gathered front ++ [(key, v)]) = gathered front ++ [(key, g v)] := by
    have same := revise_of_absent (g := g) apart
    unfold revise at same ⊢
    rw [List.map_append, same]
    simp
  have step (w : Value) (others : List (String × Value)) : gathered (front ++ (key, w) :: others) =
      others.foldl (fun fields e => addField fields e.1 e.2) (gathered front ++ [(key, w)]) := by
    rw [gathered, List.foldl_append, List.foldl_cons]
    show others.foldl _ (addField (gathered front) key w) = _
    rw [addField_of_absent absent]
  rw [step, step, foldl_of_present rest present, revise_foldl (forall_filter_ne key rest), revised]

/-- Where only the first occurrence may be a list literal, joining all of them changes nothing. -/
theorem gathered_joined {later : List Value} (h : given key entries = v :: later)
    (hsome : later ≠ []) (hplain : ∀ w ∈ later, w.isList = false) :
      gathered entries = gathered (joined key entries) := by
  obtain ⟨front, rest, rfl, hfront, hrest⟩ := exists_split h
  rw [gathered_eq_of_split hfront, joined_of_split hfront, hrest, foldl_gather v hsome,
    List.flatMap_cons, flatMap_parts_of_plain hplain]

end Value

namespace Grammar

variable {σ τ : Type}

/-! ### Literals -/

/-- Two loops of which one does what the other does, on what it has made so far. -/
theorem iterateFor_map {more : Token → Bool} {step : σ → Token → Parser σ}
    {step' : τ → Token → Parser τ}
    {g : σ → τ} (h : ∀ s t, step' (g s) t = g <$> step s t) (n : Nat) (s : σ) :
    iterateFor more step' n (g s) = g <$> iterateFor more step n s := by
  induction n generalizing s with
  | zero => rfl
  | succ n ih =>
      funext c
      rw [map_eq_bind, bind_run, iterateFor_succ, iterateFor_succ]
      split
      · rw [h, map_eq_bind, bind_run, bind_run, bind_run]
        cases step s c.next c with
        | error e d => rfl
        | ok s' d =>
            show iterateFor more step' n (g s') d = _
            rw [ih, map_eq_bind, bind_run]
      · rfl

theorem iterate_map {more : Token → Bool} {step : σ → Token → Parser σ}
    {step' : τ → Token → Parser τ} {g : σ → τ} (h : ∀ s t, step' (g s) t = g <$> step s t) (s : σ) :
    iterate more step' (g s) = g <$> iterate more step s := by
  funext c
  rw [map_eq_bind, bind_run]
  unfold iterate
  rw [iterateFor_map h, map_eq_bind, bind_run]

/-- The occurrences of keys in a message literal, up to its closing brace. -/
def literalEntries (value : Parser Value) : Parser (List (String × Value)) :=
  untilBrace (fun entries t => do
    if t.kind = .eof then unexpected t .literalEnd
    let key ← literalKey
    let v ← literalFieldValue value key
    literalSeparator
    pure (entries ++ [(key, v)])) []

/-- The fields of a literal are those that its occurrences come to. -/
theorem literalFields_eq (value : Parser Value) :
    literalFields value = Value.gathered <$> literalEntries value := by
  have next (entries : List (String × Value)) (key : String) (v : Value) :
      Value.addField (Value.gathered entries) key v = Value.gathered (entries ++ [(key, v)]) := by
    simp [Value.gathered]
  unfold literalFields literalEntries untilBrace
  refine iterate_map (g := Value.gathered) (fun entries t => ?_) []
  simp only [next]
  split
  · rfl
  · simp only [map_bind, map_pure]

theorem exists_entries {value : Parser Value} {c d : Cursor} {fields : List (String × Value)}
    (h : literalFields value c = .ok fields d) :
    ∃ entries, literalEntries value c = .ok entries d ∧ fields = Value.gathered entries := by
  rw [literalFields_eq, map_eq_bind] at h
  obtain ⟨entries, d', hentries, hpure⟩ := bind_ok_iff.mp h
  cases hpure
  exact ⟨entries, hentries, rfl⟩

/-- A list literal among the additional bindings is none of them, so the rule cannot be decoded. -/
theorem decode_ne_ok_of_nested {fields : List (String × Value)} {items : List Value} {v : Value}
    (hlookup : fields.lookup "additional_bindings" = some (.list items)) (hmem : v ∈ items)
    (hlist : v.isList = true) (rule : HttpRule) : HttpRule.decode (.message fields) ≠ .ok rule := by
  intro hdecode
  cases HttpRule.decode_eq_ok_iff.mp hdecode with
  | message _ _ _ hadditional =>
      generalize rule.additional = bindings at hadditional
      cases hadditional with
      | absent habsent =>
          rw [habsent] at hlookup
          cases hlookup
      | single hsingle hv =>
          rw [hsingle] at hlookup
          cases hlookup
          cases hv
      | list hitems hbindings =>
          rw [hitems] at hlookup
          cases hlookup
          obtain ⟨b, -, hb⟩ := exists_of_mem_forall₂ hbindings.flip hmem
          cases hb
          cases hlist

/-- **A key may be split over occurrences, as long as only the first one is a list.** Let a key
occur more than once in a message literal, each time with one value or with a list literal of
values, and let none of these values be a list. The key has the list of all these values exactly if
no occurrence behind the first one is a list literal. Then the literal reads as the one with a
single occurrence that lists all values, and an HTTP rule in it decodes to the same. The other keys
never notice. If an occurrence of the additional bindings behind the first one is a list literal,
there is no rule to decode. -/
theorem repeated_key_joins_iff_later_plain {value : Parser Value} {c d : Cursor}
    {fields : List (String × Value)} (hread : literalFields value c = .ok fields d) :
    ∃ entries, literalEntries value c = .ok entries d ∧
      ∀ key first later, Value.given key entries = first :: later → later ≠ [] →
        (∀ v ∈ (first :: later).flatMap Value.parts, v.isList = false) →
        (fields.lookup key = some (.list ((first :: later).flatMap Value.parts)) ↔
          ∀ v ∈ later, v.isList = false) ∧
        ((∀ v ∈ later, v.isList = false) →
          (∀ c' d', literalEntries value c' = .ok (Value.joined key entries) d' →
            literalFields value c' = .ok fields d') ∧
          HttpRule.decode (.message fields) =
            HttpRule.decode (.message (Value.gathered (Value.joined key entries)))) ∧
        (∀ other, other ≠ key →
          fields.lookup other = (Value.gathered (Value.joined key entries)).lookup other) ∧
        (key = "additional_bindings" → (∃ v ∈ later, v.isList = true) →
          ∀ rule, HttpRule.decode (.message fields) ≠ .ok rule) := by
  obtain ⟨entries, hentries, rfl⟩ := exists_entries hread
  refine ⟨entries, hentries, fun key first later hgiven hsome hplain => ?_⟩
  have held : (Value.gathered entries).lookup key = some (.list (first.parts ++ later)) := by
    rw [Value.lookup_gathered hgiven, Value.foldl_gather first hsome]
  refine ⟨⟨fun h => ?_, fun h => ?_⟩, fun h => ?_, fun other hother => ?_,
    fun hkey hnested rule => ?_⟩
  · rw [held] at h
    injection h with h
    injection h with h
    intro v hv
    exact hplain v (h ▸ List.mem_append_right _ hv)
  · rw [held, List.flatMap_cons, Value.flatMap_parts_of_plain h]
  · have same := Value.gathered_joined hgiven hsome h
    refine ⟨fun c' d' hjoined => ?_, by rw [← same]⟩
    rw [literalFields_eq, map_eq_bind, bind_run, hjoined, same]
    rfl
  · unfold Value.gathered
    rw [Value.lookup_foldl, Value.lookup_foldl, Value.given_joined hother]
  · subst hkey
    obtain ⟨v, hv, hlist⟩ := hnested
    exact decode_ne_ok_of_nested held (List.mem_append_right _ hv) hlist rule

/-- A literal behind its opening brace: `tag: [a] name: x tag: b }`. -/
def taggedTwice : TokenStream where
  tokens :=
    [⟨.ident, "tag", ⟨1, 1⟩, 1⟩, ⟨.punct .colon, ":", ⟨1, 4⟩, 1⟩,
      ⟨.punct .lbracket, "[", ⟨1, 6⟩, 1⟩,
      ⟨.ident, "a", ⟨1, 7⟩, 1⟩, ⟨.punct .rbracket, "]", ⟨1, 8⟩, 1⟩, ⟨.ident, "name", ⟨1, 10⟩, 1⟩,
      ⟨.punct .colon, ":", ⟨1, 14⟩, 1⟩, ⟨.ident, "x", ⟨1, 16⟩, 1⟩, ⟨.ident, "tag", ⟨1, 18⟩, 1⟩,
      ⟨.punct .colon, ":", ⟨1, 21⟩, 1⟩, ⟨.ident, "b", ⟨1, 23⟩, 1⟩,
      ⟨.punct .rbrace, "\x7d", ⟨1, 25⟩, 1⟩]
  stop := ⟨1, 26⟩

theorem repeated_key_joins_tagged :
    Source.tokens "tag: [a] name: x tag: b \x7d" = .ok taggedTwice ∧
      ∃ fields d, literalFields (valueWithin 13 63) (.ofStream taggedTwice) = .ok fields d ∧
        fields.lookup "tag" = some (.list [.identifier "a", .identifier "b"]) := by
  obtain ⟨d, hread, hentries⟩ :
      ∃ d, literalFields (valueWithin 13 63) (.ofStream taggedTwice) =
          .ok [("tag", .list [.identifier "a", .identifier "b"]), ("name", .identifier "x")] d ∧
        literalEntries (valueWithin 13 63) (.ofStream taggedTwice) =
          .ok [("tag", .list [.identifier "a"]), ("name", .identifier "x"),
          ("tag", .identifier "b")] d :=
    ⟨_, rfl, rfl⟩
  obtain ⟨entries, hagain, hlaw⟩ := repeated_key_joins_iff_later_plain hread
  rw [hentries] at hagain
  cases hagain
  have joins := (hlaw "tag" (.list [.identifier "a"]) [.identifier "b"] rfl (by simp)
    (by simp [Value.parts, Value.isList])).1
  exact ⟨by decide +kernel, _, d, hread, joins.mpr (by simp [Value.isList])⟩

/-- A list literal behind the first occurrence of its key, in a text: `option x = { k: a k: [b] };`.
-/
def nestedLater : TokenStream where
  tokens :=
    [⟨.keyword .optionKw, "option", ⟨1, 1⟩, 1⟩, ⟨.ident, "x", ⟨1, 8⟩, 1⟩,
      ⟨.punct .equals, "=", ⟨1, 10⟩, 1⟩,
      ⟨.punct .lbrace, "\x7b", ⟨1, 12⟩, 1⟩, ⟨.ident, "k", ⟨1, 14⟩, 1⟩,
      ⟨.punct .colon, ":", ⟨1, 15⟩, 1⟩,
      ⟨.ident, "a", ⟨1, 17⟩, 1⟩, ⟨.ident, "k", ⟨1, 19⟩, 1⟩, ⟨.punct .colon, ":", ⟨1, 20⟩, 1⟩,
      ⟨.punct .lbracket, "[", ⟨1, 22⟩, 1⟩, ⟨.ident, "b", ⟨1, 23⟩, 1⟩,
      ⟨.punct .rbracket, "]", ⟨1, 24⟩, 1⟩,
      ⟨.punct .rbrace, "\x7d", ⟨1, 26⟩, 1⟩, ⟨.punct .semicolon, ";", ⟨1, 27⟩, 1⟩]
  stop := ⟨1, 28⟩

/-- Two values that are given to a key do not become the list of them. -/
theorem repeated_key_nests_later_list :
    ∃ f fields, parse ⟨true, true⟩ "option x = \x7b k: a k: [b] \x7d;" = .ok f ∧
      f.options.map SchemaOption.value = [.message fields] ∧
      fields.lookup "k" = some (.list [.identifier "a", .list [.identifier "b"]]) ∧
      fields.lookup "k" ≠ some (.list [.identifier "a", .identifier "b"]) := by
  have htokens : Source.tokens "option x = \x7b k: a k: [b] \x7d;" = .ok nestedLater := by
    decide +kernel
  have hread : ∃ f, parse ⟨true, true⟩ "option x = \x7b k: a k: [b] \x7d;" = .ok f ∧
      f.options.map SchemaOption.value =
        [.message [("k", .list [.identifier "a", .list [.identifier "b"]])]] := by
    unfold parse read
    rw [htokens]
    exact ⟨_, rfl, rfl⟩
  obtain ⟨f, hf, hvalue⟩ := hread
  exact ⟨f, _, hf, hvalue, rfl, by simp⟩

end Grammar

end ProtoRoutes
