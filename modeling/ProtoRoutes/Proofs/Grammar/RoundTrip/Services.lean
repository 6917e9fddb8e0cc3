import ProtoRoutes.Proofs.Grammar.RoundTrip.Options
import ProtoRoutes.Proofs.Http.Encoding
import ProtoRoutes.Proofs.Schema.TypeRefs

/-!
# ProtoRoutes.Proofs.Grammar.RoundTrip.Services

The words of services are read back, in lenient mode: what strict mode refuses besides is not a
matter of words.

A reference to a type is written by its full name with a dot in front. The dot makes no difference
to the reference, and the package and the name put together are the name that was split. The HTTP
rule of a method stands in front of its other options, so that it is the one that is taken.
-/

namespace ProtoRoutes.Grammar

open Source (Word isIdent isIdent_keyword wordKind_keyword)

variable {mode : Mode}

/-! ### References to types -/

/-- A leading dot of a type reference is dropped. -/
theorem parse_rooted (stream : Bool) (name : String) :
    TypeRef.parse stream ("." ++ name) = .parse stream name := by
  unfold TypeRef.parse
  rw [String.toList_append]
  rfl

/-- A dotted name starts with no dot. -/
theorem dropWhile_fullIdent {name : String} (h : IsFullIdent name) :
    name.toList.dropWhile (· = '.') = name.toList := by
  obtain ⟨first, others, htext, ident⟩ := h
  obtain ⟨rest, hname⟩ : ∃ rest, name.toList = first.toList ++ rest := by
    rw [htext]
    cases others with
    | nil => exact ⟨[], by simp⟩
    | cons s others =>
        rw [String.intercalate_cons_cons, String.append_assoc, String.toList_append]
        exact ⟨_, rfl⟩
  have start := ident first List.mem_cons_self
  unfold isIdent at start
  cases hfirst : first.toList with
  | nil => rw [hfirst] at start; cases start
  | cons c cs =>
      have noDot : c ≠ '.' := by
        rintro rfl
        rw [hfirst] at start
        cases start
      rw [hname, hfirst]
      simp [noDot]

theorem fullName_parse (stream : Bool) {name : String} (h : IsFullIdent name) :
    (TypeRef.parse stream name).fullName = name := by
  rw [← String.toList_inj, (TypeRef.parse_divided stream name).2, dropWhile_fullIdent h]

/-- The name that a reference is written with. -/
theorem typeName_reads {r : TypeRef} (h : r.Printable) :
    Reads (· ≠ .punct .dot) (fun name => .parse r.stream name = r ∧ name.toList.head? = some '.')
      r.words
      typeName := by
  obtain ⟨name, hname, hr⟩ := h
  have full : r.fullName = name := by rw [hr, fullName_parse _ hname]
  rw [TypeRef.words, full]
  refine (typeName_rooted hname).mono (fun _ h => h) ?_
  rintro text rfl
  exact ⟨by rw [parse_rooted, ← hr], by simp⟩

/-- The type of a method is read back, with or without `stream`. -/
theorem methodType_reads {r : TypeRef} (h : r.Printable) :
    Consumes (· = r) r.methodWords methodType := by
  have close : ∀ {stream : Bool}, stream = r.stream → Consumes (· = r) (r.words ++ [.sign .rparen])
      (typeName >>= fun name => expectSign .rparen >>= fun _ => pure (.parse stream name)) := by
    rintro stream rfl
    refine (typeName_reads h).before (.cons (by simp [Word.shape])) fun name hname => ?_
    exact (expectSign_reads .rparen).token fun _ _ => .pure hname.1
  unfold methodType TypeRef.methodWords
  refine (expectSign_reads .lparen).token fun _ _ => ?_
  cases hstream : r.stream with
  | true =>
      refine peek_reads fun t ht => ?_
      refine peekSecond_reads fun u hu => ?_
      have kind : t.kind = .keyword .streamKw :=
        (kind_of_shape ht).trans (wordKind_keyword .streamKw)
      have other : u.isPunct .rparen = false := by
        simp [Token.isPunct, kind_of_shape hu, Word.shape]
      -- The dot of the type is second, so that the word is not taken for a type.
      simp only [kind, other]
      refine (advance_reads (w := Keyword.streamKw.word) (isIdent_keyword .streamKw)).token
        fun _ _ => ?_
      exact close hstream.symm
  | false =>
      refine peek_reads fun t ht => ?_
      refine peekSecond_any fun u => ?_
      have kind : t.kind = .punct .dot := kind_of_shape ht
      simp only [kind]
      exact close hstream.symm

/-! ### Statements and declarations -/

/-- The word that a statement starts with. -/
theorem kind_of_keyword {t : Token} {k : Keyword} {ws : List Word}
    (h : Starts (t.kind = ·) (k.word :: ws)) : t.kind = .keyword k := by
  obtain ⟨w, vs, heq, hw⟩ := h
  cases heq
  exact hw.trans (wordKind_keyword k)

theorem Starts.keyword {first : TokenKind → Prop} {k : Keyword} (h : first (.keyword k))
    (ws : List Word) : Starts first (k.word :: ws) := by
  refine .cons ?_
  rw [Keyword.word, Word.shape, wordKind_keyword]
  exact h

/-- A statement that starts with a keyword. -/
theorem Clause.ReadBy.keyword {σ τ : Type} {first : TokenKind → Prop} {view : σ → τ}
    {step : σ → Token → Parser σ} {k : Keyword} {ws : List Word} {effect : τ → Option τ}
    (hfirst : first (.keyword k))
    (hstep : ∀ s t b, t.kind = .keyword k → effect (view s) = some b →
      Consumes (fun s' => view s' = b) (k.word :: ws) (step s t)) :
    Clause.ReadBy first view step ⟨k.word :: ws, effect⟩ where
  starts := .keyword hfirst ws
  reads s t b hb ht := hstep s t b (kind_of_keyword ht) hb

/-- A statement that is an item, with what is done with it. -/
theorem Clause.ReadBy.item {σ τ α : Type} {first : TokenKind → Prop} {view : σ → τ}
    {step : σ → Token → Parser σ} {k : Keyword} {ws : List Word} {effect : τ → τ} {item : Parser α}
    {after : σ → Token → α → Parser σ} {a : α} (hfirst : first (.keyword k))
    (hitem : Consumes (· = a) (k.word :: ws) item)
    (hstep : ∀ s t, t.kind = .keyword k → step s t = item >>= after s t)
    (hafter : ∀ s t, Consumes (fun s' => view s' = effect (view s)) [] (after s t a)) :
    Clause.ReadBy first view step ⟨k.word :: ws, fun x => some (effect x)⟩ := by
  refine .keyword hfirst fun s t b kind hb => ?_
  cases hb
  rw [hstep s t kind]
  refine hitem.finish fun b hb => ?_
  rw [hb]
  exact hafter s t

/-- A declaration with a block: a keyword, a name, and statements in braces. -/
theorem declaration_reads {σ : Type} {k : Keyword} {expected : Expected} {name : String}
    {ws : List Word}
    {step : σ → Token → Parser σ} {start : Token → List Comment → σ} {close : σ → List Comment → σ}
    {a : σ} (hname : isIdent name = true)
    (hbody : ∀ t : Token, t.text = name →
      Reads (· = .punct .rbrace) (· = a) ws (untilBrace step (start t [])))
    (hclose : close a [] = a) :
    Consumes (· = a) (k.word :: .name name :: .sign .lbrace :: (ws ++ [.sign .rbrace])) (do
      let comments ← takeComments mode
      let _ ← expectKeyword k
      let t ← expectName expected
      let _ ← expectSign .lbrace
      let s ← untilBrace step (start t comments)
      let _ ← expectSign .rbrace
      let trailing ← takeTrailing mode
      pure (close s trailing)) := by
  refine (takeComments_reads mode).quiet fun comments hcomments => ?_
  refine (expectKeyword_reads k).token fun _ _ => ?_
  refine (expectName_reads hname).token fun t ht => ?_
  refine (expectSign_reads .lbrace).token fun _ _ => ?_
  rw [hcomments]
  refine (hbody t ht).before (.cons rfl) fun s hs => ?_
  refine (expectSign_reads .rbrace).token fun _ _ => ?_
  refine (takeTrailing_reads mode).quiet fun trailing htrailing => .pure ?_
  rw [hs, htrailing]
  exact hclose

/-! ### Methods -/

/-- The first option with a rule is taken out of the options. -/
theorem splitRule_option {r : HttpRule} (h : r.Printable) (options : List SchemaOption) :
    splitRule (r.option :: options) = ⟨some r, options, []⟩ := by
  have http : HttpRule.isHttpOption r.option = true := by
    simp [HttpRule.isHttpOption, HttpRule.option]
  rw [splitRule, if_pos http, HttpRule.option, HttpRule.decode_encode h]

/-- Options without a rule are all kept. -/
theorem splitRule_none {options : List SchemaOption}
    (h : ∀ o ∈ options, HttpRule.isHttpOption o = true → ∀ r, HttpRule.decode o.value ≠ .ok r) :
    (splitRule options).rule = none ∧ (splitRule options).options = options := by
  induction options with
  | nil => exact ⟨rfl, rfl⟩
  | cons o options ih =>
      have others := ih fun p hp => h p (List.mem_cons_of_mem o hp)
      rw [splitRule]
      split
      · next http =>
          -- An HTTP rule that cannot be decoded stays where it was.
          cases hdecode : HttpRule.decode o.value with
          | ok r => exact absurd hdecode (h o List.mem_cons_self http r)
          | error e => exact ⟨others.1, congrArg (o :: ·) others.2⟩
      · exact ⟨others.1, congrArg (o :: ·) others.2⟩

/-- Splitting the written options gives back the rule and the other options. -/
theorem splitRule_allOptions {m : Method} (h : m.Printable) :
    (splitRule m.allOptions).rule = m.rule ∧ (splitRule m.allOptions).options = m.options := by
  unfold Method.allOptions
  cases hrule : m.rule with
  | none => exact splitRule_none (h.noRule hrule)
  | some r =>
      have split := splitRule_option (h.rule r hrule) m.options
      exact ⟨congrArg RuleSplit.rule split, congrArg RuleSplit.options split⟩

/-- The rule itself takes one level of message literals, a binding one more, and a custom verb a
third. -/
theorem httpOption_printable {r : HttpRule} (h : r.Printable) : r.option.Printable maxDepth := by
  have dotted : IsDotted "google" ["api", "http"] "google.api.http" := ⟨by decide, by decide⟩
  exact ⟨.part (.extension ⟨_, _, dotted⟩), HttpRule.encode_printable h 61⟩

theorem allOptions_printable {m : Method} (h : m.Printable) :
    ∀ o ∈ m.allOptions, o.Printable maxDepth := by
  refine List.forall_mem_append.mpr ⟨fun o ho => ?_, h.options⟩
  obtain ⟨r, hr, rfl⟩ : ∃ r, m.rule = some r ∧ r.option = o := by simpa using ho
  exact httpOption_printable (h.rule r hr)

/-- The options of a method are read back from its body. -/
theorem methodBody_reads (mode : Mode) {options : List SchemaOption}
    (h : ∀ o ∈ options, o.Printable maxDepth) :
    Consumes (· = options)
      (.sign .lbrace ::
        (options.flatMap SchemaOption.statement ++ [.sign .rbrace, .sign .semicolon]))
      (methodBody mode) := by
  have items : Reads (· = .punct .rbrace) (fun made => made ++ [] = options)
      (options.flatMap SchemaOption.statement) (untilBrace (methodItem mode) []) := by
    refine untilBrace_reads (fun rest made => made ++ rest = options)
      (fun o ho => .keyword (by simp) _) (fun o ho rest made t hmade ht => ?_) rfl
    rw [methodItem, kind_of_keyword ht]
    refine (optionStatement_reads mode (h o ho)).finish fun p hp => .pure ?_
    rw [hp, List.append_assoc]
    exact hmade
  unfold methodBody
  refine (accept_reads .lbrace).token fun found hfound => ?_
  subst hfound
  refine items.before (.cons rfl) fun made hmade => ?_
  refine (expectSign_reads .rbrace).token fun _ _ => ?_
  exact (accept_reads .semicolon).token fun _ _ => .pure (by rw [← hmade, List.append_nil])

/-- A method is read back from its words, with its rule among the options. -/
theorem method_reads (mode : Mode) {m : Method} (h : m.Printable) :
    Consumes (· = m) m.words (method mode) := by
  obtain ⟨hrule, hoptions⟩ := splitRule_allOptions h
  unfold method Method.words
  refine (takeComments_reads mode).quiet fun comments hcomments => ?_
  refine (expectKeyword_reads .rpcKw).token fun _ _ => ?_
  refine (expectName_reads h.name).token fun name hname => ?_
  refine (methodType_reads h.input).andThen fun input hinput => ?_
  refine (expectKeyword_reads .returnsKw).token fun _ _ => ?_
  refine (methodType_reads h.output).andThen fun output houtput => ?_
  refine (methodBody_reads mode (allOptions_printable h)).finish fun options hall => ?_
  refine (defer_reads _ _).quiet fun _ _ => ?_
  refine (takeTrailing_reads mode).quiet fun trailing htrailing => .pure ?_
  rw [hcomments, hname, hinput, houtput, hall, htrailing, hrule, hoptions, List.append_nil,
    ← h.comments]

/-! ### Services -/

theorem declare_reads (hmode : mode.strict = false) (taken : Bool) (what : Definition)
    (line : Nat) :
    Consumes (fun _ => True) [] (declare mode taken what line) := by
  rw [declare, hmode]
  exact .pure trivial

/-- An option of a service. -/
def serviceOption (o : SchemaOption) : Clause Service :=
  ⟨o.statement, fun s => some { s with options := s.options ++ [o] }⟩

/-- A method of a service. -/
def serviceMethod (m : Method) : Clause Service :=
  ⟨m.words, fun s => some { s with methods := s.methods ++ [m] }⟩

theorem serviceItem_option {o : SchemaOption} (h : o.Printable maxDepth) :
    (serviceOption o).ReadBy (· ≠ .punct .rbrace) id (serviceItem mode) := by
  refine .item (by simp) (optionStatement_reads mode h) (fun _ _ kind => by rw [serviceItem, kind])
    fun _ _ => ?_
  exact .pure (by rfl)

theorem serviceItem_method (hmode : mode.strict = false) {m : Method} (h : m.Printable) :
    (serviceMethod m).ReadBy (· ≠ .punct .rbrace) id (serviceItem mode) := by
  refine .item (by simp) (method_reads mode h) (fun _ _ kind => by rw [serviceItem, kind])
    fun _ _ => ?_
  exact (declare_reads hmode _ _ _).quiet fun _ _ => .pure (by rfl)

/-- A service is read back from its words. -/
theorem service_reads (hmode : mode.strict = false) {s : Service} (h : s.Printable) :
    Consumes (· = s) s.words (service mode) := by
  obtain ⟨name, methods, options, comments⟩ := s
  obtain rfl : comments = [] := h.comments
  have clauses : ∀ i ∈ options.map serviceOption ++ methods.map serviceMethod,
      i.ReadBy (· ≠ .punct .rbrace) id (serviceItem mode) :=
    List.forall_mem_append.mpr
      ⟨List.forall_mem_map.mpr fun o ho => serviceItem_option (h.options o ho),
        List.forall_mem_map.mpr fun m hm => serviceItem_method hmode (h.methods m hm)⟩
  have made : Makes (options.map serviceOption ++ methods.map serviceMethod) ⟨name, [], [], []⟩
      ⟨name, methods, options, []⟩ :=
    (Makes.grow (fun l => Service.mk name [] l []) fun _ _ _ => rfl).append
      (.grow (fun l => Service.mk name l options []) fun _ _ _ => rfl)
  have body := block_clauses clauses made
  rw [List.flatMap_append, List.flatMap_map, List.flatMap_map] at body
  unfold service
  refine declaration_reads h.name (fun t ht => ?_) (by rfl)
  rw [ht]
  exact body

end ProtoRoutes.Grammar
