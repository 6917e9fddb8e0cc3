import ProtoRoutes.Proofs.Grammar.Runs
import ProtoRoutes.Proofs.Source.Spelling

/-!
# ProtoRoutes.Proofs.Grammar.Reads

**What a rule reads.** `Reads next post ws p` says that wherever the words `ws` are next, and behind
them a token of a kind that satisfies `next`, the rule `p` consumes exactly `ws` and comes to
something with `post`. Words have no places and tokens have, so results of rules are known up to
places only; that is why there is a `post` and not one result.

`next` is the lookahead of a rule: a dotted name goes on if a dot is next, whatever was meant. Most
rules end with a sign and look no further, and then `next` asks for nothing.

The words that are read are also sound, so that they can be spelled. A `post` that nothing satisfies
would make the rest of a rule vacuous, so there is always a result.
-/

namespace ProtoRoutes.Grammar

open Source (Word isIdent_keyword wordKind_keyword)

variable {α β σ ι : Type}

/-! ### Shapes -/

/-- What the tokens in front of a place say. -/
def Cursor.shapes (c : Cursor) : List (TokenKind × String) :=
  c.tokens.map Token.shape

/-- The kind of the token that is next. -/
def ahead : List (TokenKind × String) → TokenKind
  | [] => .eof
  | s :: _ => s.1

/-- What kind of token is next can be seen from the shapes. -/
theorem Cursor.next_kind (c : Cursor) : c.next.kind = ahead c.shapes := by
  rw [c.next_eq, shapes]
  cases c.tokens <;> rfl

theorem Cursor.next_shape {c : Cursor} {s : TokenKind × String} {rest : List (TokenKind × String)}
    (h : c.shapes = s :: rest) : c.next.shape = s := by
  rw [c.next_eq]
  unfold shapes at h
  cases htokens : c.tokens with
  | nil => rw [htokens] at h; cases h
  | cons t ts =>
      rw [htokens, List.map_cons, List.cons.injEq] at h
      exact h.1

theorem Cursor.second_shape {c : Cursor} {s u : TokenKind × String}
    {rest : List (TokenKind × String)} (h : c.shapes = s :: u :: rest) : c.second.shape = u := by
  rw [c.second_eq]
  unfold shapes at h
  rcases htokens : c.tokens with _ | ⟨t, _ | ⟨v, ts⟩⟩
  · rw [htokens] at h; cases h
  · rw [htokens] at h; cases h
  · rw [htokens, List.map_cons, List.map_cons, List.cons.injEq, List.cons.injEq] at h
    exact h.2.1

theorem Cursor.shapes_step (c : Cursor) : c.step.shapes = c.shapes.tail := by
  rw [shapes, c.tokens_step, shapes, List.map_tail]

theorem Cursor.length_shapes (c : Cursor) : c.shapes.length = c.rest.length := by
  rw [shapes, List.length_map, c.length_tokens]

/-- Words that start with a token of a certain kind. -/
def Starts (first : TokenKind → Prop) (ws : List Word) : Prop :=
  ∃ w vs, ws = w :: vs ∧ first w.shape.1

namespace Starts

variable {first second : TokenKind → Prop} {w : Word} {ws vs : List Word}

theorem cons (h : first w.shape.1) : Starts first (w :: ws) :=
  ⟨w, ws, rfl, h⟩

/-- What starts some words also starts them with others behind. -/
theorem append (h : Starts first ws) : Starts first (ws ++ vs) := by
  obtain ⟨w, us, rfl, hw⟩ := h
  exact .cons hw

theorem mono (h : Starts first ws) (himp : ∀ k, first k → second k) : Starts second ws := by
  obtain ⟨w, us, rfl, hw⟩ := h
  exact .cons (himp _ hw)

theorem kind {k : TokenKind} (h : Starts first ws) (hk : Starts (k = ·) ws) : first k := by
  obtain ⟨w, us, rfl, hw⟩ := h
  obtain ⟨v, vs, heq, hv⟩ := hk
  cases heq
  rw [hv]
  exact hw

/-- What is next when words are. -/
theorem ahead_append (h : Starts first ws) (rest : List (TokenKind × String)) :
    first (ahead (ws.map Word.shape ++ rest)) := by
  obtain ⟨w, us, rfl, hw⟩ := h
  exact hw

/-- What is next when there may be items: the first word of one of them, or what is behind them. -/
theorem ahead_flatMap {items : List ι} {words : ι → List Word} {rest : List (TokenKind × String)}
    (h : ∀ i ∈ items, Starts first (words i)) (hrest : first (ahead rest)) :
    first (ahead ((items.flatMap words).map Word.shape ++ rest)) := by
  cases items with
  | nil => exact hrest
  | cons i items =>
      rw [List.flatMap_cons]
      exact (h i List.mem_cons_self).append.ahead_append rest

end Starts

/-! ### Reading -/

/-- A rule reads words, if a token of a certain kind is next, and comes to something with a
property. -/
structure Reads (next : TokenKind → Prop) (post : α → Prop) (ws : List Word) (p : Parser α) :
    Prop where
  sound : ∀ w ∈ ws, w.Sound
  result : ∃ a, post a
  run : ∀ (c : Cursor) (rest : List (TokenKind × String)), c.Silent →
    c.shapes = ws.map Word.shape ++ rest → next (ahead rest) →
      ∃ a d, p c = .ok a d ∧ post a ∧ d.Silent ∧ d.shapes = rest

/-- A rule that reads words whatever is next. -/
abbrev Consumes (post : α → Prop) (ws : List Word) (p : Parser α) : Prop :=
  Reads (fun _ => True) post ws p

namespace Reads

variable {next mid : TokenKind → Prop} {post post' : α → Prop} {goal : β → Prop} {w : Word}
  {ws vs : List Word} {p : Parser α} {f : α → Parser β}

/-- A rule may be asked for less. -/
theorem mono (h : Reads mid post ws p) (hnext : ∀ k, next k → mid k)
    (hpost : ∀ a, post a → post' a) :
    Reads next post' ws p where
  sound := h.sound
  result := h.result.imp hpost
  run c rest hc hshapes hrest := by
    obtain ⟨a, d, hrun, ha, hd, hafter⟩ := h.run c rest hc hshapes (hnext _ hrest)
    exact ⟨a, d, hrun, hpost a ha, hd, hafter⟩

/-- What is read whatever is next is also read in front of something. -/
theorem anywhere (h : Consumes post ws p) : Reads next post ws p :=
  h.mono (fun _ _ => trivial) fun _ ha => ha

theorem pure {a : α} (h : post a) : Reads next post [] (Pure.pure a) where
  sound := by simp
  result := ⟨a, h⟩
  run c rest hc hshapes _ := ⟨a, c, rfl, h, hc, hshapes⟩

/-- A sequence reads one thing after the other. The second thing is what the first one has next. -/
theorem bind (hp : Reads mid post ws p)
    (hmid : ∀ rest, next (ahead rest) → mid (ahead (vs.map Word.shape ++ rest)))
    (hf : ∀ a, post a → Reads next goal vs (f a)) : Reads next goal (ws ++ vs) (p >>= f) where
  sound := by
    obtain ⟨a, ha⟩ := hp.result
    exact List.forall_mem_append.mpr ⟨hp.sound, (hf a ha).sound⟩
  result := by
    obtain ⟨a, ha⟩ := hp.result
    exact (hf a ha).result
  run c rest hc hshapes hrest := by
    rw [List.map_append, List.append_assoc] at hshapes
    obtain ⟨a, d, hrun, ha, hd, hafter⟩ := hp.run c _ hc hshapes (hmid rest hrest)
    obtain ⟨b, e, hrun', hb, he, hend⟩ := (hf a ha).run d rest hd hafter hrest
    exact ⟨b, e, by rw [bind_run, hrun]; exact hrun', hb, he, hend⟩

/-- The first part does not mind what follows it, so nothing is to be known of the second one. -/
theorem andThen (hp : Consumes post ws p) (hf : ∀ a, post a → Reads next goal vs (f a)) :
    Reads next goal (ws ++ vs) (p >>= f) :=
  hp.bind (fun _ _ => trivial) hf

/-- A sequence in which the second thing starts with a word that the first one may have next. -/
theorem before (hp : Reads mid post ws p) (hmid : Starts mid vs)
    (hf : ∀ a, post a → Reads next goal vs (f a)) : Reads next goal (ws ++ vs) (p >>= f) :=
  hp.bind (fun rest _ => hmid.ahead_append rest) hf

/-- A part that reads one word. -/
theorem token (hp : Consumes post [w] p) (hf : ∀ a, post a → Reads next goal vs (f a)) :
    Reads next goal (w :: vs) (p >>= f) :=
  hp.andThen hf

/-- A rule that consumes nothing, and what follows it. -/
theorem quiet (hp : Consumes post [] p) (hf : ∀ a, post a → Reads next goal vs (f a)) :
    Reads next goal vs (p >>= f) :=
  hp.andThen hf

/-- A rule that only looks ahead, in front of a word that it leaves there. -/
theorem skip (hp : Reads mid post [] p) (hmid : Starts mid vs)
    (hf : ∀ a, post a → Reads next goal vs (f a)) : Reads next goal vs (p >>= f) :=
  hp.before hmid hf

/-- A rule and what is made of its result. -/
theorem finish (hp : Reads next post ws p) (hf : ∀ a, post a → Reads next goal [] (f a)) :
    Reads next goal ws (p >>= f) := by
  have whole := hp.bind (fun _ h => h) hf
  rw [List.append_nil] at whole
  exact whole

theorem map {g : α → β} (hp : Reads next post ws p) (hg : ∀ a, post a → goal (g a)) :
    Reads next goal ws (g <$> p) where
  sound := hp.sound
  result := by
    obtain ⟨a, ha⟩ := hp.result
    exact ⟨g a, hg a ha⟩
  run c rest hc hshapes hrest := by
    obtain ⟨a, d, hrun, ha, hd, hafter⟩ := hp.run c rest hc hshapes hrest
    exact ⟨g a, d, by rw [map_eq_bind, bind_run, hrun]; rfl, hg a ha, hd, hafter⟩

end Reads

/-! ### Operations -/

section Operations

variable {next : TokenKind → Prop} {post : α → Prop} {w v : Word} {ws : List Word}

/-- A token that says what a word says. -/
def tokenOf (w : Word) : Token := ⟨w.shape.1, w.shape.2, .start, 0⟩

theorem kind_of_shape {t : Token} (h : t.shape = w.shape) : t.kind = w.shape.1 :=
  congrArg Prod.fst h

theorem text_of_shape {t : Token} (h : t.shape = w.shape) : t.text = w.shape.2 :=
  congrArg Prod.snd h

/-- A rule that looks at the next word first. -/
theorem peek_reads {f : Token → Parser α}
    (hf : ∀ t, t.shape = w.shape → Reads next post (w :: ws) (f t)) :
    Reads next post (w :: ws) (peek >>= f) where
  sound := (hf (tokenOf w) rfl).sound
  result := (hf (tokenOf w) rfl).result
  run c rest hc hshapes hrest := (hf c.next (Cursor.next_shape hshapes)).run c rest hc hshapes hrest

/-- A rule that looks at the kind of the next word first. -/
theorem peek_starts (first : TokenKind → Prop) {f : Token → Parser α} (hws : Starts first ws)
    (hf : ∀ t, first t.kind → Reads next post ws (f t)) : Reads next post ws (peek >>= f) := by
  obtain ⟨w, vs, rfl, hw⟩ := hws
  refine peek_reads fun t ht => hf t ?_
  rw [kind_of_shape ht]
  exact hw

/-- A rule that looks at the next token, which it does not consume. -/
theorem peek_ahead {f : Token → Parser α} (hnext : ∃ k, next k)
    (hf : ∀ t, next t.kind → Reads next post [] (f t)) :
    Reads next post [] (peek >>= f) where
  sound := by simp
  result := by
    obtain ⟨k, hk⟩ := hnext
    exact (hf ⟨k, "", .start, 0⟩ hk).result
  run c rest hc hshapes hrest := by
    refine (hf c.next ?_).run c rest hc hshapes hrest
    rw [c.next_kind, hshapes]
    exact hrest

/-- A rule that looks at the second word. -/
theorem peekSecond_reads {f : Token → Parser α}
    (hf : ∀ t, t.shape = v.shape → Reads next post (w :: v :: ws) (f t)) :
    Reads next post (w :: v :: ws) (peekSecond >>= f) where
  sound := (hf (tokenOf v) rfl).sound
  result := (hf (tokenOf v) rfl).result
  run c rest hc hshapes hrest :=
    (hf c.second (Cursor.second_shape hshapes)).run c rest hc hshapes hrest

/-- A rule that looks at the second word and does not care. -/
theorem peekSecond_any {f : Token → Parser α} (hf : ∀ t, Reads next post ws (f t)) :
    Reads next post ws (peekSecond >>= f) where
  sound := (hf (tokenOf (.number 0))).sound
  result := (hf (tokenOf (.number 0))).result
  run c rest hc hshapes hrest := (hf c.second).run c rest hc hshapes hrest

theorem advance_reads (hw : w.Sound) : Consumes (fun t => t.shape = w.shape) [w] advance where
  sound := by simpa using hw
  result := ⟨tokenOf w, rfl⟩
  run c rest hc hshapes _ := by
    refine ⟨c.next, c.step, rfl, Cursor.next_shape hshapes, hc.step, ?_⟩
    rw [c.shapes_step, hshapes]
    rfl

/-- A word of the kind that is asked for is read as a token of its shape. -/
theorem expectKind_reads {kind : TokenKind} {expected : Expected} (hw : w.Sound)
    (hkind : w.shape.1 = kind) :
      Consumes (fun t => t.shape = w.shape) [w] (expectKind kind expected) := by
  unfold expectKind
  refine peek_reads fun t ht => ?_
  rw [if_pos ((kind_of_shape ht).trans hkind)]
  exact advance_reads hw

theorem expectSign_reads (p : Punct) : Consumes (fun _ => True) [.sign p] (expectSign p) :=
  (expectKind_reads (w := .sign p) trivial rfl).mono (fun _ h => h) fun _ _ => trivial

theorem expectKeyword_reads (k : Keyword) :
    Consumes (fun _ => True) [.name k.text] (expectKeyword k) :=
  (expectKind_reads (w := .name k.text) (isIdent_keyword k) (wordKind_keyword k)).mono
    (fun _ h => h)
    fun _ _ => trivial

/-- A name is an identifier or a keyword. -/
theorem wordKind_cases (text : String) :
    Source.wordKind text = .ident ∨ ∃ k, Source.wordKind text = .keyword k := by
  unfold Source.wordKind
  cases Keyword.ofText? text with
  | none => exact .inl rfl
  | some k => exact .inr ⟨k, rfl⟩

/-- Keywords and identifiers are names. -/
theorem isName_of_shape {t : Token} {text : String} (h : t.shape = (Word.name text).shape) :
    t.isName = true := by
  have kind : t.kind = Source.wordKind text := kind_of_shape h
  rcases wordKind_cases text with hword | ⟨k, hword⟩
  · simp [Token.isName, kind, hword]
  · simp [Token.isName, Token.isKeyword, kind, hword]

/-- A word is read as the name that it is. -/
theorem expectName_reads {text : String} {expected : Expected}
    (htext : Source.isIdent text = true) :
    Consumes (fun t => t.text = text) [.name text] (expectName expected) := by
  unfold expectName
  refine peek_reads fun t ht => ?_
  rw [if_pos (isName_of_shape ht)]
  exact (advance_reads (w := .name text) htext).mono (fun _ h => h) fun _ h => text_of_shape h

theorem accept_reads (p : Punct) : Consumes (· = true) [.sign p] (accept p) := by
  unfold accept
  refine peek_reads fun t ht => ?_
  have sign : t.isPunct p = true := by simp [Token.isPunct, kind_of_shape ht, Word.shape]
  rw [if_pos sign]
  exact (advance_reads (w := .sign p) trivial).token fun _ _ => .pure rfl

/-- A sign that is missing is not read. -/
theorem accept_other (p : Punct) : Reads (· ≠ .punct p) (· = false) [] (accept p) := by
  unfold accept
  refine peek_ahead ⟨.eof, by simp⟩ fun t ht => ?_
  rw [if_neg (by simpa [Token.isPunct] using ht)]
  exact .pure rfl

/-- Where there are no comments, none are found. -/
theorem takeComments_reads (mode : Mode) : Consumes (· = []) [] (takeComments mode) where
  sound := by simp
  result := ⟨[], rfl⟩
  run c rest hc hshapes _ := by
    refine ⟨[], { c with passed := [], fresh := [] }, ?_, rfl, ⟨rfl, rfl, hc.rest⟩, hshapes⟩
    unfold takeComments
    simp [hc.passed, hc.fresh, commentsBefore]

theorem takeTrailing_reads (mode : Mode) : Consumes (· = []) [] (takeTrailing mode) where
  sound := by simp
  result := ⟨[], rfl⟩
  run c rest hc hshapes _ := by
    refine ⟨[], { c with passed := [] }, ?_, rfl, ⟨rfl, hc.fresh, hc.rest⟩, hshapes⟩
    unfold takeTrailing
    rw [hc.fresh]

theorem defer_reads (method : String) (errors : List RuleError) :
    Consumes (fun _ => True) [] (defer method errors) where
  sound := by simp
  result := ⟨(), trivial⟩
  run c rest hc hshapes _ := ⟨(), _, rfl, trivial, ⟨hc.passed, hc.fresh, hc.rest⟩, hshapes⟩

end Operations

/-! ### Loops -/

section Loops

variable {next mid : TokenKind → Prop} {more : Token → Bool} {step : σ → Token → Parser σ}
  {words : ι → List Word} {inv : List ι → σ → Prop}

/-- A loop reads items one after the other. `inv` relates what is still to come with what was made
of the rest; the word that an item starts with makes the loop go on, and may follow another item. -/
theorem iterateFor_reads {items : List ι}
    (hfirst : ∀ i ∈ items, Starts (fun k => mid k ∧ ∀ t : Token, t.kind = k → more t = true)
      (words i))
    (hstep : ∀ i ∈ items, ∀ rest s t, inv (i :: rest) s → Starts (t.kind = ·) (words i) →
      Reads mid (inv rest) (words i) (step s t))
    (hmid : ∀ k, next k → mid k) (hstop : ∀ t : Token, next t.kind → more t = false) {n : Nat}
    (hn : items.length < n) {s : σ} (hs : inv items s) :
    Reads next (inv []) (items.flatMap words) (iterateFor more step n s) := by
  induction items generalizing n s with
  | nil =>
      refine ⟨by simp, ⟨s, hs⟩, fun c rest hc hshapes hrest => ?_⟩
      obtain ⟨n, rfl⟩ : ∃ k, n = k + 1 := ⟨n - 1, by omega⟩
      have done : more c.next = false := by
        refine hstop c.next ?_
        rw [c.next_kind, hshapes]
        exact hrest
      refine ⟨s, c, ?_, hs, hc, hshapes⟩
      rw [iterateFor_succ, if_neg (by simp [done])]
  | cons i items ih =>
      obtain ⟨n, rfl⟩ : ∃ k, n = k + 1 := ⟨n - 1, by omega⟩
      obtain ⟨w, ws, hwords, -, hmore⟩ := hfirst i List.mem_cons_self
      have others : ∀ s, inv items s →
          Reads next (inv []) (items.flatMap words) (iterateFor more step n s) := fun s hs =>
        ih (fun j hj => hfirst j (List.mem_cons_of_mem i hj))
          (fun j hj => hstep j (List.mem_cons_of_mem i hj)) (by simpa using hn) hs
      have between : ∀ rest, next (ahead rest) →
          mid (ahead ((items.flatMap words).map Word.shape ++ rest)) := fun rest hrest =>
        Starts.ahead_flatMap
          (fun j hj => (hfirst j (List.mem_cons_of_mem i hj)).mono fun _ hk => hk.1)
          (hmid _ hrest)
      have whole : ∀ t : Token, t.shape = w.shape →
          Reads next (inv []) (words i ++ items.flatMap words)
          (step s t >>= iterateFor more step n) := by
        intro t ht
        refine (hstep i List.mem_cons_self items s t hs ?_).bind between others
        exact ⟨w, ws, hwords, kind_of_shape ht⟩
      refine ⟨(whole (tokenOf w) rfl).sound, (whole (tokenOf w) rfl).result,
        fun c rest hc hshapes hrest => ?_⟩
      have front : c.shapes = w.shape :: (ws ++ items.flatMap words).map Word.shape ++ rest := by
        rw [hshapes]
        simp [hwords]
      have shape := Cursor.next_shape front
      rw [iterateFor_succ, if_pos (hmore c.next (kind_of_shape shape))]
      exact (whole c.next shape).run c rest hc hshapes hrest

/-- A loop reads items one after the other; there are never too many of them, since each has a word.
-/
theorem iterate_reads (mid : TokenKind → Prop) (inv : List ι → σ → Prop) {items : List ι}
    (hfirst : ∀ i ∈ items, Starts (fun k => mid k ∧ ∀ t : Token, t.kind = k → more t = true)
      (words i))
    (hstep : ∀ i ∈ items, ∀ rest s t, inv (i :: rest) s → Starts (t.kind = ·) (words i) →
      Reads mid (inv rest) (words i) (step s t))
    (hmid : ∀ k, next k → mid k) (hstop : ∀ t : Token, next t.kind → more t = false) {s : σ}
    (hs : inv items s) : Reads next (inv []) (items.flatMap words) (iterate more step s) := by
  have loop : ∀ n, items.length < n →
      Reads next (inv []) (items.flatMap words) (iterateFor more step n s) := fun n hn =>
    iterateFor_reads hfirst hstep hmid hstop hn hs
  refine ⟨(loop _ (Nat.lt_succ_self _)).sound, (loop _ (Nat.lt_succ_self _)).result,
    fun c rest hc hshapes hrest => ?_⟩
  refine (loop (c.rest.length + 1) ?_).run c rest hc hshapes hrest
  have count : items.length ≤ (items.flatMap words).length := by
    clear loop hs hstep hshapes
    induction items with
    | nil => simp
    | cons i items ih =>
        obtain ⟨w, ws, hwords, -⟩ := hfirst i List.mem_cons_self
        have others := ih fun j hj => hfirst j (List.mem_cons_of_mem i hj)
        simp only [List.flatMap_cons, List.length_append, List.length_cons, hwords]
        omega
  have length := c.length_shapes
  rw [hshapes, List.length_append, List.length_map] at length
  omega

/-- A block reads its items up to the closing brace. -/
theorem untilBrace_reads (inv : List ι → σ → Prop) {items : List ι}
    (hfirst : ∀ i ∈ items, Starts (· ≠ .punct .rbrace) (words i))
    (hstep : ∀ i ∈ items, ∀ rest s t, inv (i :: rest) s → Starts (t.kind = ·) (words i) →
      Consumes (inv rest) (words i) (step s t))
    {s : σ} (hs : inv items s) :
    Reads (· = .punct .rbrace) (inv []) (items.flatMap words) (untilBrace step s) := by
  refine iterate_reads (fun _ => True) inv (fun i hi => ?_) hstep (fun _ _ => trivial) ?_ hs
  · refine (hfirst i hi).mono fun k hk => ⟨trivial, fun t ht => ?_⟩
    simp [Token.isPunct, ht, hk]
  · intro t ht
    simp [Token.isPunct, ht]

/-- Items that start with one of the tokens a loop goes on for, and a token behind them that it
stops at. -/
theorem many_reads (mid : TokenKind → Prop) {item : Parser α} {words : α → List Word} {as : List α}
    (hfirst : ∀ a ∈ as, Starts (fun k => mid k ∧ ∀ t : Token, t.kind = k → more t = true) (words a))
    (hitem : ∀ a ∈ as, Reads mid (· = a) (words a) item) (hmid : ∀ k, next k → mid k)
    (hstop : ∀ t : Token, next t.kind → more t = false) :
    Reads next (· = as) (as.flatMap words) (many more item) := by
  unfold many
  have loop : Reads next (fun made => made ++ [] = as) (as.flatMap words)
      (iterate more (fun items _ => item >>= fun a => pure (items ++ [a])) []) := by
    refine iterate_reads mid (fun rest made => made ++ rest = as) hfirst
      (fun a ha rest made t hmade _ => ?_) hmid hstop rfl
    refine (hitem a ha).finish fun b hb => .pure ?_
    rw [hb, List.append_assoc]
    exact hmade
  exact loop.mono (fun _ h => h) fun made hmade => by rw [← hmade, List.append_nil]

end Loops

/-! ### Statements

Most loops read statements of several kinds. A statement is given by its words and by what it makes
of what the statements in front of it came to; `view` is the part of the state of the loop that is
told by the words alone. -/

section Statements

variable {τ : Type}

/-- A statement: its words, and what it does. It may have no place behind certain others. -/
structure Clause (τ : Type) where
  words : List Word
  effect : τ → Option τ

/-- What statements come to, one after the other. -/
def Makes (clauses : List (Clause τ)) (a b : τ) : Prop :=
  clauses.foldlM (fun x i => i.effect x) a = some b

theorem Makes.nil (a : τ) : Makes [] a a := rfl

theorem Makes.append {clauses others : List (Clause τ)} {a b x : τ} (h : Makes clauses a x)
    (h' : Makes others x b) : Makes (clauses ++ others) a b := by
  unfold Makes at h ⊢
  rw [List.foldlM_append, h]
  exact h'

/-- Clauses take effect one after the other. -/
theorem makes_cons {clauses : List (Clause τ)} {i : Clause τ} {a b : τ} :
    Makes (i :: clauses) a b ↔ ∃ x, i.effect a = some x ∧ Makes clauses x b := by
  unfold Makes
  rw [List.foldlM_cons]
  exact Option.bind_eq_some_iff

/-- Statements that each add an item to a list. -/
theorem Makes.grow {clause : α → Clause τ} (put : List α → τ) {as : List α}
    (h : ∀ a ∈ as, ∀ made, (clause a).effect (put made) = some (put (made ++ [a]))) :
    Makes (as.map clause) (put []) (put as) := by
  have onto : ∀ made, Makes (as.map clause) (put made) (put (made ++ as)) := by
    induction as with
    | nil =>
        intro made
        rw [List.append_nil]
        exact .nil _
    | cons a as ih =>
        intro made
        have rest := ih (fun b hb => h b (List.mem_cons_of_mem a hb)) (made ++ [a])
        rw [List.append_assoc] at rest
        exact makes_cons.mpr ⟨_, h a List.mem_cons_self made, rest⟩
  exact onto []

/-- A statement that a step of a loop reads. -/
structure Clause.ReadBy (first : TokenKind → Prop) (view : σ → τ) (step : σ → Token → Parser σ)
    (i : Clause τ) : Prop where
  starts : Starts first i.words
  reads : ∀ s t b, i.effect (view s) = some b → Starts (t.kind = ·) i.words →
    Consumes (fun s' => view s' = b) i.words (step s t)

variable {next first : TokenKind → Prop} {more : Token → Bool} {step : σ → Token → Parser σ}
  {view : σ → τ} {clauses : List (Clause τ)}

/-- A loop that reads each clause by itself reads all of them, with their effects in turn. -/
theorem iterate_clauses (hmore : ∀ t : Token, first t.kind → more t = true)
    (hstop : ∀ t : Token, next t.kind → more t = false)
    (h : ∀ i ∈ clauses, i.ReadBy first view step) {s : σ} {b : τ} (hs : Makes clauses (view s) b) :
    Reads next (fun s' => view s' = b) (clauses.flatMap Clause.words) (iterate more step s) := by
  have loop : Reads next (fun s' => Makes [] (view s') b) (clauses.flatMap Clause.words)
      (iterate more step s) := by
    refine iterate_reads (fun _ => True) (fun rest s' => Makes rest (view s') b) (fun i hi => ?_)
      (fun i hi rest s' t hs' ht => ?_) (fun _ _ => trivial) hstop hs
    · exact (h i hi).starts.mono fun k hk => ⟨trivial, fun t ht => hmore t (by rwa [ht])⟩
    · obtain ⟨x, hx, hrest⟩ := makes_cons.mp hs'
      exact ((h i hi).reads s' t x hx ht).mono (fun _ h => h) fun s'' hs'' => by rwa [hs'']
  exact loop.mono (fun _ h => h) fun s' hs' => Option.some.inj hs'

/-- A block reads its statements up to the closing brace. -/
theorem block_clauses (h : ∀ i ∈ clauses, i.ReadBy (· ≠ .punct .rbrace) view step) {s : σ} {b : τ}
    (hs : Makes clauses (view s) b) :
    Reads (· = .punct .rbrace) (fun s' => view s' = b) (clauses.flatMap Clause.words)
      (untilBrace step s) := by
  refine iterate_clauses (fun t ht => ?_) (fun t ht => ?_) h hs
  · simp [Token.isPunct, ht]
  · simp [Token.isPunct, ht]

end Statements

end ProtoRoutes.Grammar
