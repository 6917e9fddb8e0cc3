import ProtoRoutes.Grammar.Files

/-!
# ProtoRoutes.Proofs.Grammar.Runs

What a run of a rule comes to. A rule is a function of the cursor, and the rules are put together
from few pieces: sequence, loop, and the operations of the cursor. Here is one equation for each of
them, so that no later proof opens them again.

`Ensures post p` says that whatever `p` succeeds with has a property. It follows the same pieces.
-/

namespace ProtoRoutes

/-! ### Failures -/

/-- Whether an error is one of a text, and not of the files around it. -/
def SchemaError.isOfText : SchemaError → Bool
  | fileNotFound _ | notUtf8 _ | importNotFound _ _ | importCycle _ | importTooDeep _ _ _ => false
  | _ => true

/-- Whether a breakdown is one of a text, and not of the files around it. -/
def Breakdown.isOfText : Breakdown → Bool
  | notDirectory | unnamedPath => false
  | _ => true

/-- Whether a failure is one of a text, and not of the files around it. -/
def Failure.isOfText : Failure → Bool
  | error e => e.isOfText
  | breakdown b => b.isOfText

/-- Whether an error is that of too deep nesting. -/
def SchemaError.isTooDeep : SchemaError → Bool
  | defect _ (.tooDeep _) => true
  | _ => false

/-- Whether a failure is the error of too deep nesting. -/
def Failure.isTooDeep : Failure → Bool
  | error e => e.isTooDeep
  | breakdown _ => false

/-- Whether an error is one of a text that quotes no number of it and is not about its depth. -/
def SchemaError.isPlain (e : SchemaError) : Bool :=
  e.isOfText && !e.isTooDeep && e.numbers.isEmpty

/-- An error that quotes no number is always reported. -/
theorem Failure.report_of_isPlain {e : SchemaError} (h : e.isPlain = true) :
    Failure.report e = .error e := by
  have hnumbers : e.numbers = [] := by
    simp only [SchemaError.isPlain, Bool.and_eq_true, List.isEmpty_iff] at h
    exact h.2
  simp [Failure.report, hnumbers]

/-! ### Token streams -/

/-- A token stream without its comments. -/
def TokenStream.uncommented (s : TokenStream) : TokenStream :=
  { s with tokens := s.tokens.filter (·.kind ≠ .comment) }

@[simp] theorem TokenStream.uncommented_twice (s : TokenStream) :
    s.uncommented.uncommented = s.uncommented := by
  simp [uncommented]

end ProtoRoutes

namespace ProtoRoutes.Grammar

variable {α β σ : Type}

/-! ### Sequence -/

theorem pure_run (a : α) (c : Cursor) : (pure a : Parser α) c = .ok a c := rfl

theorem bind_run (p : Parser α) (f : α → Parser β) (c : Cursor) :
    (p >>= f) c =
      match p c with
      | .ok a d => f a d
      | .error e d => .error e d := by
  show EStateM.bind p f c = _
  unfold EStateM.bind
  cases p c <;> rfl

theorem map_eq_bind (g : α → β) (p : Parser α) : g <$> p = p >>= fun a => pure (g a) := by
  funext c
  show EStateM.map g p c = EStateM.bind p _ c
  unfold EStateM.map EStateM.bind
  cases p c <;> rfl

/-- A sequence succeeds when its first part does, and then the second from where that ended. -/
theorem bind_ok_iff {p : Parser α} {f : α → Parser β} {c e : Cursor} {b : β} :
    (p >>= f) c = .ok b e ↔ ∃ a d, p c = .ok a d ∧ f a d = .ok b e := by
  rw [bind_run]
  cases hp : p c with
  | ok a d =>
      constructor
      · intro h
        exact ⟨a, d, rfl, h⟩
      · rintro ⟨a', d', heq, h⟩
        cases heq
        exact h
  | error x d =>
      constructor
      · intro h
        cases h
      · rintro ⟨a', d', heq, -⟩
        cases heq

/-! ### Cursor -/

namespace Cursor

/-- The tokens in front of a place. -/
def tokens (c : Cursor) : List Token :=
  c.rest.map Lexeme.token

theorem next_eq (c : Cursor) : c.next = c.tokens.head?.getD (.eof c.stop) := by
  unfold next tokens
  cases c.rest <;> rfl

theorem second_eq (c : Cursor) : c.second = c.tokens.tail.head?.getD (.eof c.stop) := by
  unfold second tokens
  rcases c.rest with _ | ⟨l, _ | ⟨m, rest⟩⟩ <;> rfl

theorem tokens_step (c : Cursor) : c.step.tokens = c.tokens.tail := by
  unfold step tokens
  cases hc : c.rest with
  | nil => simp [hc]
  | cons l rest => rfl

theorem stop_step (c : Cursor) : c.step.stop = c.stop := by
  unfold step
  cases c.rest <;> rfl

theorem deferrals_step (c : Cursor) : c.step.deferrals = c.deferrals := by
  unfold step
  cases c.rest <;> rfl

theorem length_tokens (c : Cursor) : c.tokens.length = c.rest.length :=
  List.length_map ..

/-- A place at which no comment waits, and none is to come. -/
structure Silent (c : Cursor) : Prop where
  passed : c.passed = []
  fresh : c.fresh = []
  rest : ∀ l ∈ c.rest, l.comments = []

theorem Silent.step {c : Cursor} (h : c.Silent) : c.step.Silent := by
  obtain ⟨passed, fresh, rest⟩ := h
  unfold Cursor.step
  cases hc : c.rest with
  | nil => exact ⟨passed, fresh, rest⟩
  | cons l ls =>
      rw [hc] at rest
      refine ⟨?_, rest l List.mem_cons_self, fun k hk => rest k (List.mem_cons_of_mem _ hk)⟩
      simp only [passed, fresh, List.append_nil]

end Cursor

/-- The lexemes of a stream are its tokens without the comments. -/
theorem attach_tokens (ts : List Token) :
    (attach ts).2.map Lexeme.token = ts.filter (·.kind ≠ .comment) := by
  induction ts with
  | nil => rfl
  | cons t ts ih =>
      unfold attach
      by_cases ht : t.kind = .comment
      · simp [ht, ih]
      · simp [ht, ih]

/-- Without comments there is nothing to attach. -/
theorem attach_silent {ts : List Token} (h : ∀ t ∈ ts, t.kind ≠ .comment) :
    (attach ts).1 = [] ∧ ∀ l ∈ (attach ts).2, l.comments = [] := by
  induction ts with
  | nil => simp [attach]
  | cons t ts ih =>
      have ht := h t List.mem_cons_self
      obtain ⟨first, others⟩ := ih fun u hu => h u (List.mem_cons_of_mem _ hu)
      unfold attach
      simp only [ht, if_false, List.mem_cons, true_and]
      rintro l (rfl | hl)
      · exact first
      · exact others l hl

theorem accept_run (p : Punct) (c : Cursor) :
    accept p c = if c.next.isPunct p then .ok true c.step else .ok false c := by
  show (if c.next.isPunct p = true then (advance >>= fun _ => pure true) else pure false) c = _
  split
  · rfl
  · rfl

/-- Collecting a trailing comment moves nothing but comments, and where none is kept or none waits,
none is collected. -/
theorem takeTrailing_run (mode : Mode) (c : Cursor) :
    ∃ found fresh, takeTrailing mode c = .ok found { c with passed := [], fresh } ∧
      (mode.comments = false → found = []) ∧ (c.fresh = [] → found = [] ∧ fresh = []) := by
  unfold takeTrailing
  cases hfresh : c.fresh with
  | nil => exact ⟨[], [], rfl, fun _ => rfl, fun _ => ⟨rfl, rfl⟩⟩
  | cons t ts =>
      by_cases hline : t.pos.line = c.lastLine
      · refine ⟨trailingComment mode t, ts, by simp only [hline, if_true], fun h => ?_, fun h => ?_⟩
        · simp [trailingComment, h]
        · cases h
      · refine ⟨[], t :: ts, by simp only [hline, if_false], fun _ => rfl, fun h => ?_⟩
        cases h

/-! ### Loop -/

/-- A loop looks at the next token; it makes a step and goes on, or it is done. -/
theorem iterateFor_succ (more : Token → Bool) (step : σ → Token → Parser σ) (n : Nat) (s : σ)
    (c : Cursor) :
    iterateFor more step (n + 1) s c =
      if more c.next then (step s c.next >>= iterateFor more step n) c else .ok s c := by
  rw [iterateFor, bind_run]
  show (if more c.next = true then (step s c.next >>= iterateFor more step n) else pure s) c = _
  split <;> rfl

/-- Loops collect items one by one. -/
theorem forall_mem_concat_iff {P : α → Prop} {l : List α} {a : α} :
    (∀ x ∈ l ++ [a], P x) ↔ (∀ x ∈ l, P x) ∧ P a := by
  simp [or_imp, forall_and]

/-! ### What a rule ensures -/

/-- Every result of a rule has a property. -/
def Ensures (post : α → Prop) (p : Parser α) : Prop :=
  ∀ c a d, p c = .ok a d → post a

namespace Ensures

theorem trivial (p : Parser α) : Ensures (fun _ => True) p :=
  fun _ _ _ _ => True.intro

theorem fail {post : α → Prop} {e : SchemaError} : Ensures post (Grammar.fail e) :=
  fun _ _ _ h => nomatch h

theorem pure {post : α → Prop} {a : α} (h : post a) : Ensures post (Pure.pure a) := by
  intro c b d heq
  cases heq
  exact h

theorem bind {mid : α → Prop} {post : β → Prop} {p : Parser α} {f : α → Parser β}
    (hp : Ensures mid p) (hf : ∀ a, mid a → Ensures post (f a)) : Ensures post (p >>= f) := by
  intro c b e h
  obtain ⟨a, d, ha, hb⟩ := bind_ok_iff.mp h
  exact hf a (hp c a d ha) d b e hb

/-- A rule whose result does not matter, and what follows it. -/
theorem andThen {post : β → Prop} (p : Parser α) {f : α → Parser β} (hf : ∀ a, Ensures post (f a)) :
    Ensures post (p >>= f) :=
  (trivial p).bind fun a _ => hf a

theorem iterateFor {inv : σ → Prop} {more : Token → Bool} {step : σ → Token → Parser σ}
    (h : ∀ s t, inv s → Ensures inv (step s t)) (n : Nat) (s : σ) (hs : inv s) :
    Ensures inv (Grammar.iterateFor more step n s) := by
  induction n generalizing s with
  | zero => exact fun c a d heq => nomatch heq
  | succ n ih =>
      intro c a d heq
      rw [iterateFor_succ] at heq
      split at heq
      · exact (h s c.next hs).bind ih c a d heq
      · cases heq
        exact hs

/-- A loop ensures what every step keeps. -/
theorem iterate {inv : σ → Prop} {more : Token → Bool} {step : σ → Token → Parser σ}
    (h : ∀ s t, inv s → Ensures inv (step s t)) {s : σ} (hs : inv s) :
    Ensures inv (Grammar.iterate more step s) :=
  fun c a d heq => iterateFor h _ s hs c a d heq

end Ensures

/-! ### Whole texts -/

theorem readTokens_ok {mode : Mode} {s : TokenStream} {f : SchemaFile}
    (h : (readTokens mode s).outcome = .ok f) : ∃ d, file mode (.ofStream s) = .ok f d := by
  unfold readTokens at h
  cases hrun : file mode (.ofStream s) with
  | ok g d =>
      rw [hrun] at h
      cases h
      exact ⟨d, rfl⟩
  | error e d =>
      rw [hrun] at h
      cases h

theorem readTokens_error {mode : Mode} {s : TokenStream} {e : Failure}
    (h : (readTokens mode s).outcome = .error e) : ∃ d, file mode (.ofStream s) = .error e d := by
  unfold readTokens at h
  cases hrun : file mode (.ofStream s) with
  | ok g d =>
      rw [hrun] at h
      cases h
  | error e' d =>
      rw [hrun] at h
      cases h
      exact ⟨d, rfl⟩

theorem parse_ok {mode : Mode} {text : String} {f : SchemaFile} (h : parse mode text = .ok f) :
    ∃ s, Source.tokens text = .ok s ∧ (readTokens mode s).outcome = .ok f := by
  unfold parse read at h
  cases htokens : Source.tokens text with
  | ok s =>
      rw [htokens] at h
      exact ⟨s, rfl, h⟩
  | error e =>
      rw [htokens] at h
      cases h

theorem exists_ok_of_toOption {α β ε : Type} {x : Except ε α} {g : α → β} {b : β}
    (h : x.toOption.map g = some b) : ∃ a, x = .ok a ∧ g a = b := by
  cases x with
  | ok a => exact ⟨a, rfl, Option.some.inj h⟩
  | error e => cases h

/-- The one service of a text that is read, with something that is computed from its file. -/
theorem exists_service_of_toOption {γ δ ε : Type} {mode : Mode} {text : String}
    {x : SchemaFile → Except ε γ} {g : Service → γ → δ} {d : δ} (h : (parse mode text).toOption.map
      (fun f => (x f).toOption.map fun a => f.services.map (g · a)) = some (some [d])) :
    ∃ f a, parse mode text = .ok f ∧ x f = .ok a ∧ ∃ s ∈ f.services, g s a = d := by
  obtain ⟨f, hread, hf⟩ := exists_ok_of_toOption h
  obtain ⟨a, ha, hd⟩ := exists_ok_of_toOption hf
  exact ⟨f, a, hread, ha, List.mem_map.mp (hd ▸ List.mem_singleton_self d)⟩

end ProtoRoutes.Grammar
