import ProtoRoutes.Proofs.Grammar.Rules

/-!
# ProtoRoutes.Proofs.Grammar.Locality

**What is read does not depend on what follows.** A rule looks at tokens in front of it, and it
stops at one that it does not consume. As long as that one stays, all tokens behind it may be
others: the rule does the same (`Steady.elsewhere`). This holds for all steady rules, so there is no
lemma for each of them.

A statement that ends with its semicolon or brace looks at nothing behind it, and then there need
not be a token that stays (`Closes`). For a loop over such statements this means that it passes over
all of them, and then goes on with whatever follows (`iterate_passes`).

Places are those of streams without comments here. The comments behind a token are no part of it.
-/

namespace ProtoRoutes.Grammar

variable {α β σ : Type}

/-! ### Places in front of tokens -/

/-- A place in front of tokens with no comments among them. -/
structure Cursor.Faces (c : Cursor) (ts : List Token) : Prop where
  silent : c.Silent
  tokens : c.tokens = ts

namespace Cursor.Faces

variable {c d : Cursor} {ts w w' r r' : List Token}

theorem length_eq (h : c.Faces ts) : c.rest.length = ts.length := by
  rw [← c.length_tokens, h.tokens]

/-- What stands in front of the same tokens is the same. -/
theorem cancel (h : c.Faces (w ++ r)) (hrest : c.tokens = w' ++ r) : w = w' :=
  List.append_cancel_right (h.tokens.symm.trans hrest)

theorem step {t : Token} (h : c.Faces (t :: ts)) : c.step.Faces ts where
  silent := h.silent.step
  tokens := by rw [c.tokens_step, h.tokens, List.tail_cons]

/-- In front of the same tokens the next one is the same. -/
theorem next_eq (hc : c.Faces (w ++ r)) (hd : d.Faces (w ++ r')) (hsome : w ≠ []) :
    c.next = d.next := by
  obtain ⟨t, w, rfl⟩ := List.exists_cons_of_ne_nil hsome
  rw [c.next_eq, d.next_eq, hc.tokens, hd.tokens]
  rfl

theorem second_eq (hc : c.Faces (w ++ r)) (hd : d.Faces (w ++ r')) (hmore : 2 ≤ w.length) :
    c.second = d.second := by
  rw [c.second_eq, d.second_eq, hc.tokens, hd.tokens]
  match w, hmore with
  | t :: u :: w, _ => rfl

end Cursor.Faces

/-- What is in front of a place is also in front of every place before it. -/
theorem Forward.split {c d : Cursor} {w r : List Token} (h : Forward c d) (hd : d.tokens = w ++ r) :
    ∃ u, c.tokens = u ++ w ++ r := by
  obtain ⟨u, hu⟩ := h.tokens
  exact ⟨u, by rw [← hu, hd, List.append_assoc]⟩

/-! ### What follows does not matter -/

/-- Whatever follows the tokens `w`: if a rule leaves some of them, it does the same. -/
def Elsewhere (r r' : List Token) (p : Parser α) : Prop :=
  ∀ {w w' : List Token} {c d c' : Cursor} {a : α}, c.Faces (w ++ r) → d.Faces (w ++ r') →
    p c = .ok a c' → c'.tokens = w' ++ r → w' ≠ [] → ∃ d', p d = .ok a d' ∧ d'.Faces (w' ++ r')

/-- The number of steps that a loop may make is no part of what it does. -/
theorem iterateFor_bound {more : Token → Bool} {step : σ → Token → Parser σ}
    (hmoves : ∀ s t, more t = true → Moves (· = t) (step s t)) {n m : Nat} (s : σ) {c : Cursor}
    (hn : c.rest.length < n) (hm : c.rest.length < m) :
    iterateFor more step n s c = iterateFor more step m s c := by
  induction n generalizing m s c with
  | zero => cases hn
  | succ n ih =>
      obtain ⟨m, rfl⟩ := Nat.exists_eq_succ_of_ne_zero (Nat.ne_of_gt (Nat.zero_lt_of_lt hm))
      rw [iterateFor_succ, iterateFor_succ]
      split
      · next hmore =>
          rw [bind_run, bind_run]
          cases hrun : step s c.next c with
          | ok s' d =>
              have := hmoves s c.next hmore c s' d rfl hrun
              exact ih s' (by omega) (by omega)
          | error e d => rfl
      · rfl

/-- A rule that consumes nothing and always comes to the same. -/
def Still (a : α) (p : Parser α) : Prop :=
  ∀ c : Cursor, c.Silent → ∃ d, p c = .ok a d ∧ d.Faces c.tokens

namespace Still

theorem pure (a : α) : Still a (Pure.pure a) :=
  fun c hc => ⟨c, rfl, hc, rfl⟩

theorem takeComments (mode : Mode) : Still [] (Grammar.takeComments mode) := by
  intro c hc
  refine ⟨{ c with passed := [], fresh := [] }, ?_, ⟨rfl, rfl, hc.rest⟩, rfl⟩
  simp [Grammar.takeComments, hc.passed, hc.fresh, commentsBefore]

theorem takeTrailing (mode : Mode) : Still [] (Grammar.takeTrailing mode) := by
  intro c hc
  obtain ⟨found, fresh, hrun, -, hsilent⟩ := takeTrailing_run mode c
  obtain ⟨rfl, rfl⟩ := hsilent hc.fresh
  exact ⟨_, hrun, ⟨rfl, rfl, hc.rest⟩, rfl⟩

theorem defer (method : String) (errors : List RuleError) :
    Still () (Grammar.defer method errors) :=
  fun _ hc => ⟨_, rfl, ⟨hc.passed, hc.fresh, hc.rest⟩, rfl⟩

/-- Two parts that stay where they are. -/
theorem bind {a : α} {b : β} {p : Parser α} {f : α → Parser β} (hp : Still a p)
    (hf : Still b (f a)) :
    Still b (p >>= f) := by
  intro c hc
  obtain ⟨d, hfirst, hd⟩ := hp c hc
  obtain ⟨e, hsecond, he⟩ := hf d hd.silent
  exact ⟨e, bind_ok_iff.mpr ⟨a, d, hfirst, hsecond⟩, hd.tokens ▸ he⟩

end Still

namespace Elsewhere

variable {r r' : List Token}

/-- A rule that stays where it is does the same at all places. -/
theorem still {a : α} {p : Parser α} (h : Still a p) : Elsewhere r r' p := by
  intro w w' _ d _ _ hc hd hrun hrest _
  obtain ⟨c₁, hleft, hc₁⟩ := h _ hc.silent
  obtain ⟨d₁, hright, hd₁⟩ := h d hd.silent
  rw [hleft] at hrun
  cases hrun
  have hw : w = w' := hc.cancel (hc₁.tokens.symm.trans hrest)
  exact ⟨d₁, hright, hd₁.silent, by rw [hd₁.tokens, hd.tokens, hw]⟩

/-- A loop does the same in front of the same tokens, as long as one of them stays. -/
theorem iterateFor {more : Token → Bool} {step : σ → Token → Parser σ}
    (hsteady : ∀ s t, more t = true → Steady (step s t))
    (hmoves : ∀ s t, more t = true → Moves (· = t) (step s t))
    (hsteps : ∀ s t, more t = true → Elsewhere r r' (step s t)) (n m : Nat) (s : σ)
    {w w' : List Token} {c d c' : Cursor} {s' : σ} (hc : c.Faces (w ++ r)) (hd : d.Faces (w ++ r'))
    (hm : d.rest.length < m) (hrun : Grammar.iterateFor more step n s c = .ok s' c')
    (hrest : c'.tokens = w' ++ r) (hsome : w' ≠ []) :
    ∃ d', Grammar.iterateFor more step m s d = .ok s' d' ∧ d'.Faces (w' ++ r') := by
  -- On the steps of the left loop. The right one makes the same, and its own bound lasts as well.
  induction n generalizing m s w c d with
  | zero => cases hrun
  | succ n ih =>
      obtain ⟨m, rfl⟩ := Nat.exists_eq_succ_of_ne_zero (Nat.ne_of_gt (Nat.zero_lt_of_lt hm))
      have loop := iterateFor_steps (fun s t hmore => (hsteady s t hmore).steps) (n + 1) s c
      rw [hrun] at loop
      obtain ⟨u, hu⟩ := loop.forward.split hrest
      have hw : w = u ++ w' := hc.cancel hu
      have next : c.next = d.next := hc.next_eq hd (by simp [hw, hsome])
      rw [iterateFor_succ] at hrun ⊢
      rw [← next]
      split at hrun
      · next hmore =>
          rw [if_pos hmore]
          obtain ⟨s₁, c₁, hfirst, hothers⟩ := bind_ok_iff.mp hrun
          have others := iterateFor_steps (fun s t hmore => (hsteady s t hmore).steps) n s₁ c₁
          rw [hothers] at others
          obtain ⟨v, hv⟩ := others.forward.split hrest
          obtain ⟨d₁, hfirst', hd₁⟩ := hsteps s c.next hmore hc hd hfirst hv (by simp [hsome])
          have := hmoves s c.next hmore d s₁ d₁ next.symm hfirst'
          rw [bind_run, hfirst']
          have hc₁ := (hsteady s c.next hmore).silent_of_ok hc.silent hfirst
          exact ih m s₁ ⟨hc₁, hv⟩ hd₁ (by omega) hothers
      · next hmore =>
          rw [if_neg hmore]
          cases hrun
          have hw : w = w' := hc.cancel hrest
          exact ⟨d, rfl, hw ▸ hd⟩

end Elsewhere

/-- **What is read does not depend on what follows**: a steady rule that leaves one of the tokens
`w` does the same whatever stands behind them. -/
theorem Steady.elsewhere {p : Parser α} (h : Steady p) (r r' : List Token) : Elsewhere r r' p := by
  induction h with
  | pure a => exact Elsewhere.still (.pure a)
  | peek =>
      intro w w' c d c' b hc hd hrun hrest hsome
      cases hrun
      have hw : w = w' := hc.cancel hrest
      refine ⟨d, ?_, hw ▸ hd⟩
      rw [hc.next_eq hd (hw ▸ hsome)]
      rfl
  | advance =>
      intro w w' c d c' b hc hd hrun hrest hsome
      cases hrun
      -- Some of `w` is left, so what was passed is the first of its tokens.
      have hw : w ≠ [] := by
        rintro rfl
        have := (Forward.step c).length_le
        rw [← c.step.length_tokens, hrest, hc.length_eq, List.length_append] at this
        have := List.length_pos_iff.mpr hsome
        simp only [List.nil_append] at *
        omega
      obtain ⟨t, w, rfl⟩ := List.exists_cons_of_ne_nil hw
      have hw : w = w' := hc.step.cancel hrest
      refine ⟨d.step, ?_, hw ▸ hd.step⟩
      rw [hc.next_eq hd (by simp)]
      rfl
  | fail e =>
      intro w w' c d c' b hc hd hrun
      cases hrun
  | breakDown b =>
      intro w w' c d c' b hc hd hrun
      cases hrun
  | takeComments mode => exact Elsewhere.still (.takeComments mode)
  | takeTrailing mode => exact Elsewhere.still (.takeTrailing mode)
  | defer method errors => exact Elsewhere.still (.defer method errors)
  | bind hp hf ihp ihf =>
      intro w w' c d c' b hc hd hrun hrest hsome
      obtain ⟨a, c₁, hfirst, hsecond⟩ := bind_ok_iff.mp hrun
      obtain ⟨u, hu⟩ := ((hf a).forward_of_ok hsecond).split hrest
      obtain ⟨d₁, hfirst', hd₁⟩ := ihp hc hd hfirst hu (by simp [hsome])
      have hc₁ := hp.silent_of_ok hc.silent hfirst
      obtain ⟨d', hsecond', hd'⟩ := ihf a ⟨hc₁, hu⟩ hd₁ hsecond hrest hsome
      exact ⟨d', bind_ok_iff.mpr ⟨a, d₁, hfirst', hsecond'⟩, hd'⟩
  | @second _ f hf hmoves ihf =>
      intro w w' c d c' b hc hd hrun hrest hsome
      have run : f c.second c = .ok b c' := hrun
      obtain ⟨u, hu⟩ := ((hf c.second).forward_of_ok run).split hrest
      have hw : w = u ++ w' := hc.cancel hu
      -- One token of `w` is consumed and one is left, so the second token is one of them.
      have second : c.second = d.second := by
        refine hc.second_eq hd ?_
        have := hmoves c.second c b c' True.intro run
        rw [hc.length_eq, ← c'.length_tokens, hrest, List.length_append, List.length_append] at this
        have := List.length_pos_iff.mpr hsome
        omega
      obtain ⟨d', run', hd'⟩ := ihf c.second hc hd run hrest hsome
      exact ⟨d', by rw [second] at run'; exact run', hd'⟩
  | iterate hsteps hmoves s ihsteps =>
      intro w w' c d c' b hc hd hrun hrest hsome
      exact Elsewhere.iterateFor hsteps hmoves ihsteps _ _ s hc hd (Nat.lt_succ_self _)
        hrun hrest hsome
  | @bounded _ q hq hstable ihq =>
      intro w w' c d c' b hc hd hrun hrest hsome
      -- Both sides run with a bound that is above both numbers of tokens.
      have left := hstable (c.rest.length + d.rest.length + 1) c (by omega)
      have right := hstable (c.rest.length + d.rest.length + 1) d (by omega)
      obtain ⟨d', run', hd'⟩ := ihq _ hc hd (left.trans hrun) hrest hsome
      exact ⟨d', right.symm.trans run', hd'⟩

/-! ### Statements that end with a sign -/

/-- Where the next token satisfies `pre`: a rule that consumes tokens and looks at none behind them.
-/
structure Closes (pre : Token → Prop) (p : Parser α) : Prop where
  marches : Marches Anywhere true False pre Anything p
  run : ∀ {r r' w w' : List Token} {c d c' : Cursor} {a : α}, c.Faces (w ++ r) → d.Faces (w ++ r') →
    pre c.next → p c = .ok a c' → c'.tokens = w' ++ r → ∃ d', p d = .ok a d' ∧ d'.Faces (w' ++ r')

/-- What is consumed is there before. -/
theorem Moves.split {pre : Token → Prop} {p : Parser α} (hmoves : Moves pre p) (hsteady : Steady p)
    {w w' r : List Token} {c c' : Cursor} {a : α} (hc : c.Faces (w ++ r)) (hpre : pre c.next)
    (hrun : p c = .ok a c') (hrest : c'.tokens = w' ++ r) : ∃ u, u ≠ [] ∧ w = u ++ w' := by
  obtain ⟨u, hu⟩ := (hsteady.forward_of_ok hrun).split hrest
  have hw : w = u ++ w' := hc.cancel hu
  refine ⟨u, ?_, hw⟩
  rintro rfl
  have := hmoves c a c' hpre hrun
  rw [hc.length_eq, ← c'.length_tokens, hrest, hw] at this
  simp at this

namespace Closes

variable {pre : Token → Prop} {p : Parser α} {f : α → Parser β}

theorem steady (h : Closes pre p) : Steady p :=
  h.marches.isSteady

theorem moves (h : Closes pre p) : Moves pre p :=
  h.marches.consumes

theorem anywhere (h : Closes Anywhere p) : Closes pre p where
  marches := h.marches.anywhere
  run hc hd _ hrun hrest := h.run hc hd True.intro hrun hrest

theorem fail (e : SchemaError) : Closes pre (Grammar.fail e : Parser α) where
  marches := ⟨⟨.fail e, False.elim⟩, fun _ _ _ _ hrun => nomatch hrun⟩
  run _ _ _ hrun _ := nomatch hrun

theorem step {t : Token} (hkind : t.kind ≠ .eof) : Closes (· = t) Grammar.advance where
  marches := .step hkind
  run hc hd hnext hrun hrest := by
    obtain ⟨u, hsome, hw⟩ := (Marches.step hkind).moves.split .advance hc hnext hrun hrest
    obtain ⟨v, u, rfl⟩ := List.exists_cons_of_ne_nil hsome
    subst hw
    cases hrun
    refine ⟨_, by rw [hc.next_eq hd (by simp)]; rfl, ?_⟩
    have hu : u ++ _ = _ := hc.step.cancel hrest
    exact hu ▸ hd.step

/-- The token that is looked at is one that the statement consumes. -/
theorem look {f : Token → Parser β} (h : ∀ t, Closes (· = t) (f t)) : Closes pre (peek >>= f) where
  marches := .look fun t => (h t).marches.given And.left
  run {r r' w w' c d c' a} hc hd _ hrun hrest := by
    have run : f c.next c = .ok a c' := hrun
    obtain ⟨u, hsome, hw⟩ := (h c.next).moves.split (h c.next).steady hc rfl run hrest
    obtain ⟨d', run', hd'⟩ := (h c.next).run hc hd rfl run hrest
    rw [hc.next_eq hd (by simp [hw, hsome])] at run'
    exact ⟨d', run', hd'⟩

/-- The first part may look ahead, if the second one consumes something. -/
theorem after (hp : Steady p) (hf : ∀ a, Closes Anywhere (f a)) : Closes pre (p >>= f) where
  marches := .after hp.progresses fun a => (hf a).marches
  run hc hd _ hrun hrest := by
    obtain ⟨a, c₁, hfirst, hsecond⟩ := bind_ok_iff.mp hrun
    have second := hf a
    obtain ⟨u, hu⟩ := (second.steady.forward_of_ok hsecond).split hrest
    have hc₁ : c₁.Faces (u ++ _ ++ _) := ⟨hp.silent_of_ok hc.silent hfirst, hu⟩
    obtain ⟨v, hsome, hv⟩ := second.moves.split second.steady hc₁ True.intro hsecond hrest
    obtain ⟨d₁, hfirst', hd₁⟩ := hp.elsewhere _ _ hc hd hfirst hu (by simp [hv, hsome])
    obtain ⟨d', hsecond', hd'⟩ := (hf a).run hc₁ hd₁ True.intro hsecond hrest
    exact ⟨d', bind_ok_iff.mpr ⟨a, d₁, hfirst', hsecond'⟩, hd'⟩

/-- The second part consumes nothing. -/
theorem andThen {g : α → β} (hp : Closes pre p) (hsteady : ∀ a, Steady (f a))
    (hf : ∀ a, Still (g a) (f a)) : Closes pre (p >>= f) where
  marches := hp.marches.eatThen fun a => (hsteady a).progresses
  run hc hd hpre hrun hrest := by
    obtain ⟨a, c₁, hfirst, hsecond⟩ := bind_ok_iff.mp hrun
    obtain ⟨e, hleft, he⟩ := hf a c₁ (hp.steady.silent_of_ok hc.silent hfirst)
    rw [hleft] at hsecond
    cases hsecond
    obtain ⟨d₁, hfirst', hd₁⟩ := hp.run hc hd hpre hfirst (he.tokens.symm.trans hrest)
    obtain ⟨d', hright, hd'⟩ := hf a d₁ hd₁.silent
    exact ⟨d', bind_ok_iff.mpr ⟨a, d₁, hfirst', hright⟩, hd₁.tokens ▸ hd'⟩

end Closes

theorem expectKind_closes {kind : TokenKind} (expected : Expected) (hkind : kind ≠ .eof) :
    Closes Anywhere (expectKind kind expected) := by
  refine .look fun t => ?_
  split
  · next heq => exact .step (heq ▸ hkind)
  · exact .fail _

/-- The last sign of a statement, and a comment behind it. -/
theorem lastSign_closes (p : Punct) (mode : Mode) (g : List Comment → α) : Closes Anywhere (do
    let _ ← expectSign p
    let trailing ← takeTrailing mode
    pure (g trailing)) := by
  refine (expectKind_closes _ (by simp)).andThen (g := fun _ => g []) (fun _ => ?_) fun _ => ?_
  · exact .bind (.takeTrailing mode) fun _ => .pure _
  · exact .bind (.takeTrailing mode) (.pure _)

section Statements

variable (mode : Mode)

theorem optionStatement_closes (room : Nat) : Closes Anywhere (optionStatement mode room) := by
  refine .after (expectKeyword_marches _).steady fun _ => ?_
  exact .after (optionAssignment_marches room).steady fun o => lastSign_closes _ mode fun _ => o

theorem version_closes : Closes Anywhere (version mode) := by
  refine .after (expectKeyword_marches _).steady fun _ =>
    .after (expectSign_marches _).steady fun _ => ?_
  refine .after (expectKind_marches _ (by simp)).steady fun t => ?_
  split
  · exact .fail _
  · next v _ => exact lastSign_closes _ mode fun _ => v

theorem package_closes : Closes Anywhere (package mode) := by
  refine .after (expectKeyword_marches _).steady fun _ => ?_
  exact .after fullIdent_marches.steady fun name => lastSign_closes _ mode fun _ => name

theorem importStatement_closes : Closes Anywhere (importStatement mode) := by
  refine .after (expectKeyword_marches _).steady fun _ => .after importKind_progresses.steady
    fun kind => ?_
  exact .after stringValue_marches.steady fun path => lastSign_closes _ mode fun _ =>
    Import.mk kind path

/-- Statements of a header end with a semicolon. -/
theorem headerItem_closes (f : SchemaFile) (t : Token) (hstart : isHeaderStart t = true) :
    Closes (· = t) (headerItem mode f t) := by
  have kept {β : Type} {p : Parser β} (hp : Closes (· = t) p) (g : β → SchemaFile) :
      Closes (· = t) (p >>= fun b => pure (g b)) :=
    hp.andThen (fun _ => .pure _) fun b => .pure (g b)
  unfold headerItem
  split
  · split
    · exact .fail _
    · exact kept (package_closes mode).anywhere _
  · exact kept (importStatement_closes mode).anywhere _
  · exact kept (optionStatement_closes mode maxDepth).anywhere _
  · have hkind : t.kind ≠ .eof := by
      intro heq
      simp [isHeaderStart, heq] at hstart
    exact kept (.step hkind) _

/-- A service ends with its brace. -/
theorem service_closes : Closes Anywhere (service mode) := by
  refine .after (.takeComments mode) fun before =>
    .after (expectKeyword_marches _).steady fun _ => ?_
  refine .after (expectName_marches _).steady fun name =>
    .after (expectSign_marches _).steady fun _ => ?_
  have items : Steady (untilBrace (serviceItem mode) ⟨name.text, [], [], before⟩) :=
    (Progresses.loop (fun s t _ => (serviceItem_marches mode s t False.elim).any) _).steady
  exact .after items fun s => lastSign_closes _ mode _

theorem enumeration_closes (room : Nat) : Closes Anywhere (enumeration mode room) := by
  refine .after (.takeComments mode) fun before =>
    .after (expectKeyword_marches _).steady fun _ => ?_
  refine .after (expectName_marches _).steady fun name =>
    .after (expectSign_marches _).steady fun _ => ?_
  have items : Steady (untilBrace (enumItem mode room) ⟨name.text, [], [], before, [], []⟩) :=
    (Progresses.loop (fun e t _ => (enumItem_marches mode room e t False.elim).any) _).steady
  exact .after items fun e => lastSign_closes _ mode _

theorem messageBlock_closes (room : Nat) {nested : Parser Message}
    (hnested : Marches Anywhere true False Anywhere (Message.Named (Names Anywhere)) nested)
    (name : String) (before : List Comment) :
    Closes Anywhere (messageBlock mode room nested name before) := by
  refine .after (expectSign_marches _).steady fun _ => ?_
  have items : Steady (untilBrace (messageItem mode room nested)
      ⟨⟨name, [], [], [], [], before, [], [], []⟩, []⟩) :=
    (Progresses.loop (fun d t _ =>
      (messageItem_marches mode room hnested d t False.elim).any) _).steady
  refine .after items fun d => ?_
  exact .after (checkReserved_progresses mode d False.elim).steady fun _ => lastSign_closes _ mode _

/-- A message ends with its brace. -/
theorem message_closes (room : Nat) : Closes Anywhere (message mode room) := by
  cases room with
  | zero =>
      refine .after (.takeComments mode) fun _ => .after (expectKeyword_marches _).steady
        fun _ => ?_
      exact .after (expectName_marches _).steady fun name => .fail _
  | succ room =>
      refine .after (.takeComments mode) fun before => .after (expectKeyword_marches _).steady
        fun _ => ?_
      refine .after (expectName_marches _).steady fun name => ?_
      exact messageBlock_closes mode room (message_marches mode room) name.text before

end Statements

/-- In lenient mode nothing is checked behind a definition. -/
theorem definition_closes (comments : Bool) (f : SchemaFile) (t : Token) :
    Closes (· = t) (definition ⟨false, comments⟩ f t) := by
  have kept {β : Type} {p : Parser β} (hp : Closes (· = t) p) (taken : β → Bool)
      (what : β → Definition) (g : β → SchemaFile) :
      Closes (· = t) (p >>= fun b => do
        declare ⟨false, comments⟩ (taken b) (what b) t.pos.line
        pure (g b)) :=
    hp.andThen (fun _ => .pure _) fun b => .pure (g b)
  unfold definition
  simp only
  split
  · exact kept (service_closes _).anywhere _ _ _
  · exact kept (message_closes _ maxDepth).anywhere _ _ _
  · exact kept (enumeration_closes _ maxDepth).anywhere _ _ _
  · next hkind => exact (Closes.step (by simp [hkind])).andThen (fun _ => .pure f) fun _ => .pure f
  · exact .fail _
  · exact .fail _

/-! ### Loops over statements -/

/-- A loop over statements does the same with them, whatever follows, and goes on with that. -/
theorem iterateFor_passes {more : Token → Bool} {step : σ → Token → Parser σ}
    (hsteps : ∀ s t, more t = true → Closes (· = t) (step s t)) {n m : Nat} {s s' : σ}
    {r r' w w' : List Token} {c d c' : Cursor} (hc : c.Faces (w ++ r)) (hd : d.Faces (w ++ r'))
    (hm : d.rest.length < m) (hrun : iterateFor more step n s c = .ok s' c')
    (hrest : c'.tokens = w' ++ r) :
    ∃ d', d'.Faces (w' ++ r') ∧ iterateFor more step m s d = iterate more step s' d' := by
  have hsteady : ∀ s t, more t = true → ∀ c, Cursor.Steps c (endOf (step s t c)) :=
    fun s t hmore => (hsteps s t hmore).steady.steps
  have hmoves : ∀ s t, more t = true → Moves (· = t) (step s t) :=
    fun s t hmore => (hsteps s t hmore).moves
  -- On the steps of the left loop; where it stops, the right one goes on with what follows.
  induction n generalizing m s w c d with
  | zero => cases hrun
  | succ n ih =>
      rw [iterateFor_succ] at hrun
      split at hrun
      · next hmore =>
          obtain ⟨s₁, c₁, hfirst, hothers⟩ := bind_ok_iff.mp hrun
          have others := iterateFor_steps hsteady n s₁ c₁
          rw [hothers] at others
          obtain ⟨v, hv⟩ := others.forward.split hrest
          have first := hsteps s c.next hmore
          obtain ⟨u, hsome, hw⟩ := first.moves.split first.steady hc rfl hfirst hv
          have next : c.next = d.next := hc.next_eq hd (by simp [hw, hsome])
          obtain ⟨d₁, hfirst', hd₁⟩ := (hsteps s c.next hmore).run hc hd rfl hfirst hv
          have := hmoves s c.next hmore d s₁ d₁ next.symm hfirst'
          obtain ⟨m, rfl⟩ := Nat.exists_eq_succ_of_ne_zero (Nat.ne_of_gt (Nat.zero_lt_of_lt hm))
          obtain ⟨d', hd', heq⟩ := ih ⟨first.steady.silent_of_ok hc.silent hfirst, hv⟩ hd₁ (m := m)
            (by omega) hothers
          refine ⟨d', hd', ?_⟩
          rw [iterateFor_succ, ← next, if_pos hmore, bind_run, hfirst']
          exact heq
      · cases hrun
        have hw : w = w' := hc.cancel hrest
        exact ⟨d, hw ▸ hd, iterateFor_bound hmoves _ hm (Nat.lt_succ_self _)⟩

/-- A loop over statements passes from one text to another one with the same tokens in front. -/
theorem iterate_passes {more : Token → Bool} {step : σ → Token → Parser σ}
    (hsteps : ∀ s t, more t = true → Closes (· = t) (step s t)) {s s' : σ} {r r' w w' : List Token}
    {c d c' : Cursor} (hc : c.Faces (w ++ r)) (hd : d.Faces (w ++ r'))
    (hrun : iterate more step s c = .ok s' c') (hrest : c'.tokens = w' ++ r) :
    ∃ d', d'.Faces (w' ++ r') ∧ iterate more step s d = iterate more step s' d' :=
  iterateFor_passes hsteps hc hd (Nat.lt_succ_self _) hrun hrest

/-- A loop that goes on makes a step and goes on behind it. -/
theorem iterate_step {more : Token → Bool} {step : σ → Token → Parser σ}
    (hmoves : ∀ s t, more t = true → Moves (· = t) (step s t)) {s s' : σ} {c d : Cursor}
    (hmore : more c.next = true) (hrun : step s c.next c = .ok s' d) :
    iterate more step s c = iterate more step s' d := by
  have := hmoves s c.next hmore c s' d rfl hrun
  unfold iterate
  rw [iterateFor_succ, if_pos hmore, bind_run, hrun]
  exact iterateFor_bound hmoves s' (by omega) (Nat.lt_succ_self _)

theorem iterate_done {more : Token → Bool} {step : σ → Token → Parser σ} {s : σ} {c : Cursor}
    (hmore : more c.next = false) : iterate more step s c = .ok s c := by
  unfold iterate
  rw [iterateFor_succ, hmore]
  rfl

/-! ### Headers -/

section Headers

variable (mode : Mode)

/-- The header is the version, if it is there, and then a loop over statements. -/
theorem header_run (c : Cursor) :
    header mode c =
      if c.next.kind = .keyword .syntaxKw then
        (version mode >>= fun v =>
          iterate isHeaderStart (headerItem mode) { SchemaFile.empty with version := v }) c
      else iterate isHeaderStart (headerItem mode) SchemaFile.empty c := by
  show (if c.next.kind = .keyword .syntaxKw then _ else _ : Parser SchemaFile) c = _
  split
  · rfl
  · rfl

/-- The header of a file is read in the same way whatever follows it, and goes on if that belongs to
it. -/
theorem header_passes {f : SchemaFile} {r r' w w' : List Token} {c d c' : Cursor}
    (hc : c.Faces (w ++ r))
    (hd : d.Faces (w ++ r')) (hfirst : w = [] → d.next.kind ≠ .keyword .syntaxKw)
    (hrun : header mode c = .ok f c') (hrest : c'.tokens = w' ++ r) :
    ∃ d', d'.Faces (w' ++ r') ∧ header mode d = iterate isHeaderStart (headerItem mode) f d' := by
  have hitems := fun g t hstart => headerItem_closes mode g t hstart
  rw [header_run] at hrun ⊢
  by_cases hversion : c.next.kind = .keyword .syntaxKw
  · rw [if_pos hversion] at hrun
    obtain ⟨v, c₁, hfront, hloop⟩ := bind_ok_iff.mp hrun
    have items :
        Steady (iterate isHeaderStart (headerItem mode) { SchemaFile.empty with version := v }) :=
      (Progresses.loop (fun g t hstart =>
        (headerItem_marches mode g t hstart False.elim).any) _).steady
    obtain ⟨u, hu⟩ := (items.forward_of_ok hloop).split hrest
    have front := version_closes mode
    obtain ⟨x, hsome, hw⟩ := front.moves.split front.steady hc True.intro hfront hu
    obtain ⟨d₁, hfront', hd₁⟩ := (version_closes mode).run hc hd True.intro hfront hu
    rw [← hc.next_eq hd (by simp [hw, hsome]), if_pos hversion, bind_run, hfront']
    exact iterate_passes hitems ⟨front.steady.silent_of_ok hc.silent hfront, hu⟩ hd₁ hloop hrest
  · rw [if_neg hversion] at hrun
    have plain : d.next.kind ≠ .keyword .syntaxKw := by
      by_cases hw : w = []
      · exact hfirst hw
      · rw [← hc.next_eq hd hw]
        exact hversion
    rw [if_neg plain]
    exact iterate_passes hitems hc hd hrun hrest

end Headers

/-- The place in front of a stream from which the comments were taken. -/
theorem ofStream_uncommented_faces (s : TokenStream) :
    (Cursor.ofStream s.uncommented).Faces s.uncommented.tokens := by
  have proper : ∀ t ∈ s.uncommented.tokens, t.kind ≠ .comment := by
    intro t ht
    simpa using (List.mem_filter.mp ht).2
  obtain ⟨first, others⟩ := attach_silent proper
  refine ⟨⟨rfl, first, others⟩, ?_⟩
  have htokens : (Cursor.ofStream s.uncommented).tokens = s.uncommented.tokens.filter
      (·.kind ≠ .comment) :=
    attach_tokens _
  rw [htokens, List.filter_eq_self]
  simpa using proper

end ProtoRoutes.Grammar
