import Mathlib.Algebra.Group.Nat.Defs
import ProtoRoutes.Proofs.Grammar.Steadiness
import ProtoRoutes.Proofs.Source.TokenClasses

/-!
# ProtoRoutes.Proofs.Grammar.Progress

**What a rule of the grammar comes to by itself.** `Progresses seen deep known post p` says it of a
rule `p` in front of tokens with `seen`:

* it is steady;
* if it fails, it reports an error of the text, or it breaks down for a reason that is a number
  token (`Blamed`); that the nesting is too deep is reported only if `deep` allows it;
* if it succeeds, its result has `post`.

A rule that consumes a token besides is one that `Marches`. What a rule fails with may depend on
what was read before it: a number that is quoted in a report is one of a token. This is `known`.
That a rule is steady does not depend on it, so with `known` false this is all that is said.
-/

namespace ProtoRoutes

/-! ### Names of trees -/

/-- Words with dots between them. -/
def IsJoined (word : String → Prop) (text : String) : Prop :=
  ∃ first others, text = ".".intercalate (first :: others) ∧ ∀ s ∈ first :: others, word s

/-- A message whose name is a word, and so are those of the types in it at every depth. -/
inductive Message.Named (word : String → Prop) : Message → Prop where
  | intro {m : Message} (name : word m.name) (enums : ∀ e ∈ m.enums, word e.name)
      (nested : ∀ n ∈ m.messages, n.Named word) : m.Named word

/-- A service whose name is a word, and so are those of its methods. -/
structure Service.Named (word : String → Prop) (s : Service) : Prop where
  name : word s.name
  methods : ∀ m ∈ s.methods, word m.name

/-- A file whose names are words. -/
structure SchemaFile.Named (word : String → Prop) (f : SchemaFile) : Prop where
  package : ∀ package, f.package = some package → IsJoined word package
  services : ∀ s ∈ f.services, s.Named word
  messages : ∀ m ∈ f.messages, m.Named word
  enums : ∀ e ∈ f.enums, word e.name

section Named

variable {word word' : String → Prop} (himp : ∀ s, word s → word' s)

include himp

theorem IsJoined.imp {text : String} (h : IsJoined word text) : IsJoined word' text := by
  obtain ⟨first, others, htext, hwords⟩ := h
  exact ⟨first, others, htext, fun s hs => himp s (hwords s hs)⟩

theorem Message.Named.imp {m : Message} (h : m.Named word) : m.Named word' := by
  induction h with
  | intro name enums _ ih => exact ⟨himp _ name, fun e he => himp _ (enums e he), ih⟩

theorem SchemaFile.Named.imp {f : SchemaFile} (h : f.Named word) : f.Named word' where
  package p hp := (h.package p hp).imp himp
  services s hs :=
    ⟨himp _ (h.services s hs).name, fun m hm => himp _ ((h.services s hs).methods m hm)⟩
  messages m hm := (h.messages m hm).imp himp
  enums e he := himp _ (h.enums e he)

end Named

/-! ### Reports of the lexer -/

namespace Source

/-- What the lexer reports is about the text alone. -/
theorem tokensFrom_isPlain {pos : Position} {cs : List Char} {e : SchemaError}
    (h : tokensFrom pos cs = .error e) : e.isPlain = true := by
  fun_induction tokensFrom pos cs with
  | case1 => cases h
  | case2 pos c rest defect hscan =>
      cases h
      revert hscan
      fun_cases scan c rest <;> rintro ⟨⟩ <;> rfl
  | case3 pos c rest piece n hscan stop ih =>
      cases hrest : tokensFrom stop (rest.drop n) with
      | error e' =>
          rw [hrest] at h
          cases h
          exact ih hrest
      | ok others =>
          rw [hrest] at h
          cases h

end Source

namespace Grammar

variable {α β σ : Type}

/-! ### Reasons of failures -/

/-- A number that can be quoted in a sentence, or is that of a token. -/
def Quotable (seen : Token → Prop) (n : Int) : Prop :=
  n.natAbs < Nat.pow 10 Number.maxDecimalDigits ∨
    ∃ t, seen t ∧ t.kind = .number ∧ Number.integer? t.text.toList = some n.natAbs

/-- A number with few digits can be quoted without a token. -/
theorem quotable_of_short {seen : Token → Prop} {n : Int} (h : n.natAbs < 10 ^ 10) :
    Quotable seen n := by
  have hpower : ∀ k, 10 ≤ k → 10 ^ 10 ≤ Nat.pow 10 k :=
    fun k hk => Nat.pow_le_pow_right (by decide) hk
  exact .inl (Nat.lt_of_lt_of_le h (hpower Number.maxDecimalDigits (by decide)))

/-- Every number is that of some token. -/
theorem quotable_anywhere (n : Int) : Quotable Anywhere n := by
  have read : Number.integer? ('0' :: 'x' :: Nat.toDigits 16 n.natAbs) = some n.natAbs := by
    rw [Number.integer?_of_hex (.inl rfl) Nat.toDigits_ne_nil,
      Number.natOfDigits?_toDigits (by decide) (by decide)]
  refine .inr ⟨⟨.number, String.ofList ('0' :: 'x' :: Nat.toDigits 16 n.natAbs), ⟨0, 0⟩, 0⟩,
    True.intro, rfl, ?_⟩
  rwa [String.toList_ofList]

/-- A failure for which a text is to blame: an error, which may be about the depth if it can be
great, or a breakdown whose reason is a number token. -/
inductive Blamed (seen : Token → Prop) (deep : Bool) : Failure → Prop where
  | error {e : SchemaError} (text : e.isOfText = true) (depth : e.isTooDeep = true → deep = true) :
      Blamed seen deep (.error e)
  | number {t : Token} {fault : Number.Fault} (ht : seen t) (hkind : t.kind = .number)
      (hreal : Number.real t.text.toList = .error fault) :
      Blamed seen deep (.breakdown (.number fault))
  | unprintable {t : Token} {n : Nat} (ht : seen t) (hkind : t.kind = .number)
      (hinteger : Number.integer? t.text.toList = some n)
      (hlong : Nat.pow 10 Number.maxDecimalDigits ≤ n) : Blamed seen deep (.breakdown .unprintable)

namespace Blamed

variable {seen : Token → Prop} {deep : Bool}

/-- A report cannot be printed only if it quotes a number that is too long. -/
theorem report {e : SchemaError} (text : e.isOfText = true)
    (depth : e.isTooDeep = true → deep = true) (h : ∀ n ∈ e.numbers, Quotable seen n) :
    Blamed seen deep (Failure.report e) := by
  unfold Failure.report
  split
  · exact .error text depth
  · next hall =>
      simp only [List.all_eq_true, decide_eq_true_eq, Classical.not_forall] at hall
      obtain ⟨n, hn, hlong⟩ := hall
      rcases h n hn with hshort | ⟨t, ht, hkind, hinteger⟩
      · exact absurd hshort hlong
      · exact .unprintable ht hkind hinteger (Nat.le_of_not_lt hlong)

/-- A report without numbers can always be printed. -/
theorem plain {e : SchemaError} (h : e.isPlain = true) : Blamed seen deep (Failure.report e) := by
  simp only [SchemaError.isPlain, Bool.and_eq_true, List.isEmpty_iff, Bool.not_eq_true'] at h
  refine .report h.1.1 (fun hdeep => ?_) fun n hn => ?_
  · rw [h.1.2] at hdeep
    cases hdeep
  · rw [h.2] at hn
    cases hn

theorem isOfText {e : Failure} (h : Blamed seen deep e) : e.isOfText = true := by
  cases h with
  | error text _ => exact text
  | number _ _ _ => rfl
  | unprintable _ _ _ _ => rfl

/-- Where the depth cannot be great, it is not the reason of a failure. -/
theorem isTooDeep {e : Failure} (h : Blamed seen false e) : e.isTooDeep = false := by
  cases h with
  | @error e _ depth =>
      cases hdeep : e.isTooDeep with
      | false => exact hdeep
      | true => cases depth hdeep
  | number _ _ _ => rfl
  | unprintable _ _ _ _ => rfl

end Blamed

/-! ### Places in front of tokens -/

/-- The end of a stream, or a token with `seen`. -/
def Stands (seen : Token → Prop) (t : Token) : Prop :=
  t.kind ≠ .eof → seen t

/-- All tokens in front of a place have `seen`. -/
def Cursor.Sees (c : Cursor) (seen : Token → Prop) : Prop :=
  ∀ t ∈ c.tokens, seen t

theorem Forward.sees {c d : Cursor} {seen : Token → Prop} (h : Forward c d) (hc : c.Sees seen) :
    d.Sees seen :=
  fun t ht => hc t (h.tokens.subset ht)

theorem Cursor.mem_tokens_next {c : Cursor} (h : c.next.kind ≠ .eof) : c.next ∈ c.tokens := by
  unfold Cursor.next Cursor.tokens at *
  cases hrest : c.rest with
  | nil => simp [hrest, Token.eof] at h
  | cons l rest => simp

theorem Cursor.Sees.next {c : Cursor} {seen : Token → Prop} (h : c.Sees seen) :
    Stands seen c.next :=
  fun hkind => h _ (Cursor.mem_tokens_next hkind)

/-- A step over a token leaves one token less. -/
theorem Cursor.length_step {c : Cursor} (h : c.next.kind ≠ .eof) :
    c.step.rest.length + 1 = c.rest.length := by
  unfold Cursor.next at h
  unfold Cursor.step
  cases hrest : c.rest with
  | nil => simp [hrest, Token.eof] at h
  | cons l rest => rfl

/-! ### Rules and what they come to -/

/-- Every result. -/
abbrev Anything : α → Prop := fun _ => True

/-- What a run comes to: a result with a property, or a failure with a reason. -/
inductive ComesTo (seen : Token → Prop) (deep : Bool) (post : α → Prop) :
    EStateM.Result Failure Cursor α → Prop where
  | ok {a : α} {d : Cursor} (h : post a) : ComesTo seen deep post (.ok a d)
  | error {e : Failure} {d : Cursor} (h : Blamed seen deep e) : ComesTo seen deep post (.error e d)

/-- A steady rule that, if something is known, comes in front of tokens with `seen` to a result with
a property, or to a failure with a reason. -/
structure Progresses (seen : Token → Prop) (deep : Bool) (known : Prop) (post : α → Prop)
    (p : Parser α) : Prop where
  isSteady : Steady p
  run : known → ∀ c, c.Sees seen → ComesTo seen deep post (p c)

/-- A rule that progresses, and consumes a token if it succeeds where the next token satisfies
`pre`. -/
structure Marches (seen : Token → Prop) (deep : Bool) (known : Prop) (pre : Token → Prop)
    (post : α → Prop) (p : Parser α) : Prop extends Progresses seen deep known post p where
  consumes : Moves pre p

/-- With nothing known, all that is said of a rule is that it is steady. -/
theorem Steady.progresses {p : Parser α} (h : Steady p) :
    Progresses Anywhere true False Anything p :=
  ⟨h, False.elim⟩

section Judgements

variable {seen : Token → Prop} {deep : Bool} {known known' : Prop} {pre : Token → Prop}
  {mid : α → Prop} {post : β → Prop} {p : Parser α} {f : α → Parser β}

namespace Progresses

theorem steady (h : Progresses Anywhere true False mid p) : Steady p :=
  h.isSteady

theorem given (h : Progresses seen deep known mid p) (himp : known' → known) :
    Progresses seen deep known' mid p :=
  ⟨h.isSteady, fun hknown => h.run (himp hknown)⟩

/-- Any property of the results can take the place of the one that is known. -/
theorem ensured {mid' : α → Prop} (h : Progresses seen deep known mid p)
    (hpost : known → ∀ c a d, c.Sees seen → p c = .ok a d → mid' a) :
    Progresses seen deep known mid' p where
  isSteady := h.isSteady
  run hknown c hc := by
    have ends := h.run hknown c hc
    cases hrun : p c with
    | ok a d => exact .ok (hpost hknown c a d hc hrun)
    | error e d =>
        rw [hrun] at ends
        cases ends with
        | error hblame => exact .error hblame

/-- A weaker property of the results, which may use what is known. -/
theorem weaken {mid' : α → Prop} (h : Progresses seen deep known mid p)
    (himp : known → ∀ a, mid a → mid' a) : Progresses seen deep known mid' p where
  isSteady := h.isSteady
  run hknown c hc := by
    have ends := h.run hknown c hc
    generalize p c = r at ends
    cases ends with
    | ok ha => exact .ok (himp hknown _ ha)
    | error hblame => exact .error hblame

theorem post_of_ok (h : Progresses seen deep True mid p) {c d : Cursor} {a : α} (hc : c.Sees seen)
    (hrun : p c = .ok a d) : mid a := by
  have ends := h.run True.intro c hc
  rw [hrun] at ends
  cases ends with
  | ok hpost => exact hpost

theorem blamed_of_error (h : Progresses seen deep True mid p) {c d : Cursor} {e : Failure}
    (hc : c.Sees seen) (hrun : p c = .error e d) : Blamed seen deep e := by
  have ends := h.run True.intro c hc
  rw [hrun] at ends
  cases ends with
  | error hblame => exact hblame

/-- In front of any tokens, the results have a property. -/
theorem ensures (h : Progresses Anywhere false True mid p) : Ensures mid p :=
  fun _ _ _ hrun => h.post_of_ok (fun _ _ => True.intro) hrun

theorem pure {b : β} (h : known → post b) : Progresses seen deep known post (Pure.pure b) :=
  ⟨.pure b, fun hknown _ _ => .ok (h hknown)⟩

theorem done (b : β) : Progresses seen deep known Anything (Pure.pure b) :=
  pure fun _ => True.intro

/-- An error that may quote numbers. -/
theorem report {e : SchemaError} (text : e.isOfText = true)
    (depth : e.isTooDeep = true → deep = true) (h : known → ∀ n ∈ e.numbers, Quotable seen n) :
    Progresses seen deep known post (Grammar.fail e) :=
  ⟨.fail e, fun hknown _ _ => .error (.report text depth (h hknown))⟩

/-- An error that quotes no number. -/
theorem fail {e : SchemaError} (h : e.isPlain = true) :
    Progresses seen deep known post (Grammar.fail e) :=
  ⟨.fail e, fun _ _ _ => .error (.plain h)⟩

theorem advance : Progresses seen deep known (Stands seen) Grammar.advance :=
  ⟨.advance, fun _ _ hc => .ok hc.next⟩

theorem takeComments (mode : Mode) :
    Progresses seen deep known Anything (Grammar.takeComments mode) :=
  ⟨.takeComments mode, fun _ _ _ => .ok True.intro⟩

theorem takeTrailing (mode : Mode) :
    Progresses seen deep known Anything (Grammar.takeTrailing mode) where
  isSteady := .takeTrailing mode
  run _ c _ := by
    obtain ⟨found, fresh, hrun, -, -⟩ := takeTrailing_run mode c
    rw [hrun]
    exact .ok True.intro

theorem defer (method : String) (errors : List RuleError) :
    Progresses seen deep known Anything (Grammar.defer method errors) :=
  ⟨.defer method errors, fun _ _ _ => .ok True.intro⟩

/-- What the first part ensures is known to the second one. -/
theorem bind (hp : Progresses seen deep known mid p)
    (hf : ∀ a, Progresses seen deep (known ∧ mid a) post (f a)) :
    Progresses seen deep known post (p >>= f) where
  isSteady := hp.isSteady.bind fun a => (hf a).isSteady
  run hknown c hc := by
    rw [bind_run]
    have first := hp.run hknown c hc
    cases hrun : p c with
    | error e d =>
        rw [hrun] at first
        cases first with
        | error hblame => exact .error hblame
    | ok a d =>
        rw [hrun] at first
        cases first with
        | ok hmid => exact (hf a).run ⟨hknown, hmid⟩ d ((hp.isSteady.forward_of_ok hrun).sees hc)

/-- The result of the first part is not asked for. -/
theorem andThen (hp : Progresses seen deep known mid p)
    (hf : ∀ a, Progresses seen deep known post (f a)) : Progresses seen deep known post (p >>= f) :=
  hp.bind fun a => (hf a).given And.left

/-- The next token is at the end of the stream, or it has `seen`. -/
theorem look {f : Token → Parser β}
    (h : ∀ t, Progresses seen deep (known ∧ Stands seen t) post (f t)) :
    Progresses seen deep known post (peek >>= f) where
  isSteady := .bind .peek fun t => (h t).isSteady
  run hknown c hc := (h c.next).run ⟨hknown, hc.next⟩ c hc

end Progresses

namespace Marches

/-- Where it does not matter what is next. -/
theorem progresses (h : Marches seen deep known Anywhere mid p) :
    Progresses seen deep known mid p :=
  h.toProgresses

/-- With nothing known, a rule that marches is steady. -/
theorem steady (h : Marches Anywhere true False Anywhere mid p) : Steady p :=
  h.isSteady

/-- With nothing known, a rule that marches consumes a token. -/
theorem moves (h : Marches Anywhere true False pre mid p) : Moves pre p :=
  h.consumes

theorem given (h : Marches seen deep known pre mid p) (himp : known' → known) :
    Marches seen deep known' pre mid p :=
  ⟨h.toProgresses.given himp, h.consumes⟩

/-- What is consumed at every place is consumed at those with a property. -/
theorem anywhere (h : Marches seen deep known Anywhere mid p) : Marches seen deep known pre mid p :=
  ⟨h.toProgresses, fun c a d _ hrun => h.consumes c a d True.intro hrun⟩

theorem any (h : Marches seen deep known pre mid p) : Marches seen deep known pre Anything p :=
  ⟨h.toProgresses.weaken fun _ _ _ => True.intro, h.consumes⟩

theorem fail {e : SchemaError} (h : e.isPlain = true) :
    Marches seen deep known pre post (Grammar.fail e) :=
  ⟨.fail h, fun _ _ _ _ hrun => nomatch hrun⟩

/-- The token that was looked at is consumed. -/
theorem step {t : Token} (hkind : t.kind ≠ .eof) :
    Marches seen deep known (· = t) Anything Grammar.advance where
  toProgresses := Progresses.advance.weaken fun _ _ _ => True.intro
  consumes c a d hnext hrun := by
    cases hrun
    subst hnext
    have := c.length_step hkind
    omega

/-- That a token is consumed first need not matter. -/
theorem bind (hp : Marches seen deep known Anywhere mid p)
    (hf : ∀ a, Progresses seen deep (known ∧ mid a) post (f a)) :
    Progresses seen deep known post (p >>= f) :=
  hp.toProgresses.bind hf

theorem andThen (hp : Marches seen deep known Anywhere mid p)
    (hf : ∀ a, Progresses seen deep known post (f a)) : Progresses seen deep known post (p >>= f) :=
  hp.toProgresses.andThen hf

/-- A token is consumed first, and then the rest never goes back. -/
theorem eat (hp : Marches seen deep known pre mid p)
    (hf : ∀ a, Progresses seen deep (known ∧ mid a) post (f a)) :
    Marches seen deep known pre post (p >>= f) where
  toProgresses := hp.toProgresses.bind hf
  consumes c b e hnext hrun := by
    obtain ⟨a, d, hfirst, hsecond⟩ := bind_ok_iff.mp hrun
    have := hp.consumes c a d hnext hfirst
    have := ((hf a).isSteady.forward_of_ok hsecond).length_le
    omega

theorem eatThen (hp : Marches seen deep known pre mid p)
    (hf : ∀ a, Progresses seen deep known post (f a)) :
      Marches seen deep known pre post (p >>= f) :=
  hp.eat fun a => (hf a).given And.left

/-- The first part never goes back, and then a token is consumed. -/
theorem after (hp : Progresses seen deep known mid p)
    (hf : ∀ a, Marches seen deep known Anywhere post (f a)) :
    Marches seen deep known pre post (p >>= f) where
  toProgresses := hp.andThen fun a => (hf a).toProgresses
  consumes c b e _ hrun := by
    obtain ⟨a, d, hfirst, hsecond⟩ := bind_ok_iff.mp hrun
    have := (hp.isSteady.forward_of_ok hfirst).length_le
    have := (hf a).consumes d b e True.intro hsecond
    omega

/-- The token that was looked at is the one in front of the rest of the rule. -/
theorem look {f : Token → Parser β}
    (h : ∀ t, Marches seen deep (known ∧ Stands seen t) (· = t) post (f t)) :
    Marches seen deep known pre post (peek >>= f) where
  toProgresses := .look fun t => (h t).toProgresses
  consumes c b d _ hrun := (h c.next).consumes c b d rfl hrun

/-- The second token decides between rules that consume a token each. -/
theorem lookSecond {f : Token → Parser β}
    (h : ∀ u, Marches seen deep known Anywhere post (f u)) :
    Marches seen deep known Anywhere post (peekSecond >>= f) where
  isSteady := .second (fun u => (h u).isSteady) fun u => (h u).consumes
  run hknown c hc := (h c.second).run hknown c hc
  consumes c b d _ hrun := (h c.second).consumes c b d True.intro hrun

theorem map {g : α → β} (h : Marches seen deep known pre mid p) :
    Marches seen deep known pre Anything (g <$> p) := by
  rw [map_eq_bind]
  exact h.eat fun a => .done (g a)

end Marches

/-- A loop comes to its end within as many steps as there are tokens, and keeps its invariant. -/
theorem iterateFor_comesTo {inv : σ → Prop} {more : Token → Bool} {step : σ → Token → Parser σ}
    (h : ∀ s t, more t = true → Marches seen deep (known ∧ inv s) (· = t) inv (step s t))
    (hknown : known) (n : Nat) (s : σ) (hs : inv s) (c : Cursor) (hc : c.Sees seen)
    (hn : c.rest.length < n) : ComesTo seen deep inv (iterateFor more step n s c) := by
  -- On the number of steps: each of them leaves less tokens, so the number lasts.
  induction n generalizing s c with
  | zero => cases hn
  | succ n ih =>
      rw [iterateFor_succ]
      split
      · next hmore =>
          have hstep := h s c.next hmore
          have first := hstep.run ⟨hknown, hs⟩ c hc
          rw [bind_run]
          cases hrun : step s c.next c with
          | error e d =>
              rw [hrun] at first
              cases first with
              | error hblame => exact .error hblame
          | ok s' d =>
              rw [hrun] at first
              cases first with
              | ok hs' =>
                  have := hstep.consumes c s' d rfl hrun
                  exact ih s' hs' d ((hstep.isSteady.forward_of_ok hrun).sees hc) (by omega)
      · exact .ok hs

/-- A loop comes to its end if every step consumes a token or fails. -/
theorem Progresses.iterate {inv : σ → Prop} {more : Token → Bool} {step : σ → Token → Parser σ}
    (h : ∀ s t, more t = true → Marches seen deep (known ∧ inv s) (· = t) inv (step s t)) {s : σ}
    (hs : known → inv s) : Progresses seen deep known inv (Grammar.iterate more step s) where
  isSteady := .iterate (fun s t hmore => (h s t hmore).isSteady)
    (fun s t hmore => (h s t hmore).consumes) s
  run hknown c hc := iterateFor_comesTo h hknown _ s (hs hknown) c hc (Nat.lt_succ_self _)

/-- A loop of which nothing is to be known but that it progresses. -/
theorem Progresses.loop {more : Token → Bool} {step : σ → Token → Parser σ}
    (h : ∀ s t, more t = true → Marches seen deep known (· = t) Anything (step s t)) (s : σ) :
    Progresses seen deep known Anything (Grammar.iterate more step s) :=
  .iterate (fun s t hmore => (h s t hmore).given And.left) fun _ => True.intro

/-! ### The operations of the cursor -/

/-- A token is consumed if it passes a test. -/
theorem test_marches {test : Token → Prop} [DecidablePred test] {e : Token → SchemaError}
    (htest : ∀ t, test t → t.kind ≠ .eof) (he : ∀ t, (e t).isPlain = true) :
    Marches seen deep known pre (fun t => seen t ∧ test t)
      (peek >>= fun t => if test t then advance else fail (e t)) := by
  have form : Marches seen deep known pre Anything
      (peek >>= fun t => if test t then advance else fail (e t)) := by
    refine .look fun t => ?_
    split
    · next hpass => exact .step (htest t hpass)
    · exact .fail (he t)
  refine ⟨form.ensured fun _ c t d hc hrun => ?_, form.consumes⟩
  have hrun : (if test c.next then advance else fail (e c.next)) c = .ok t d := hrun
  by_cases hpass : test c.next
  · rw [if_pos hpass] at hrun
    cases hrun
    exact ⟨hc.next (htest _ hpass), hpass⟩
  · rw [if_neg hpass] at hrun
    cases hrun

/-- The token that is consumed is of the kind that was asked for. -/
theorem expectKind_marches {kind : TokenKind} (expected : Expected) (hkind : kind ≠ .eof) :
    Marches seen deep known pre (fun t => seen t ∧ t.kind = kind) (expectKind kind expected) :=
  test_marches (fun _ heq => heq ▸ hkind) fun _ => rfl

theorem expectSign_marches (p : Punct) : Marches seen deep known pre Anything (expectSign p) :=
  (expectKind_marches _ (by simp)).any

theorem expectKeyword_marches (k : Keyword) :
    Marches seen deep known pre Anything (expectKeyword k) :=
  (expectKind_marches _ (by simp)).any

theorem kind_ne_eof_of_isName {t : Token} (h : t.isName = true) : t.kind ≠ .eof := by
  intro heq
  simp [Token.isName, Token.isKeyword, heq] at h

theorem kind_of_isPunct {t : Token} {p : Punct} (h : t.isPunct p = true) : t.kind = .punct p := by
  simpa [Token.isPunct] using h

theorem kind_ne_eof_of_isPunct {t : Token} {p : Punct} (h : t.isPunct p = true) :
    t.kind ≠ .eof := by
  rw [kind_of_isPunct h]
  exact fun heq => nomatch heq

theorem kind_ne_eof_of_isWord {t : Token} {w : String} (h : t.isWord w = true) : t.kind ≠ .eof := by
  intro heq
  simp [Token.isWord, heq] at h

/-- A name is that of a token. -/
def Names (seen : Token → Prop) (name : String) : Prop :=
  ∃ t, seen t ∧ t.isName = true ∧ t.text = name

/-- The text of the token that is consumed is a name of the text. -/
theorem expectName_marches (expected : Expected) :
    Marches seen deep known pre (fun t => Names seen t.text) (expectName expected) := by
  have form : Marches seen deep known pre (fun t => seen t ∧ t.isName = true)
      (expectName expected) :=
    test_marches (fun _ => kind_ne_eof_of_isName) fun _ => rfl
  exact ⟨form.toProgresses.weaken fun _ t h => ⟨t, h.1, h.2, rfl⟩, form.consumes⟩

/-- A sign that may be missing. -/
theorem accept_progresses (p : Punct) : Progresses seen deep known Anything (accept p) := by
  refine .look fun t => ?_
  split
  · exact Progresses.advance.bind fun _ => .done true
  · exact .done false

/-- A choice between two rules, of which the first one stands behind a sign. -/
theorem accept_choice_marches (p : Punct) {x y : Parser β}
    (hx : Progresses seen deep known post x) (hy : Marches seen deep known Anywhere post y) :
    Marches seen deep known pre post (accept p >>= fun found => if found = true then x else y) where
  toProgresses := by
    refine (accept_progresses p).bind fun found => ?_
    split
    · exact hx.given And.left
    · exact hy.toProgresses.given And.left
  consumes c a d _ hrun := by
    rw [bind_run, accept_run] at hrun
    -- The sign is the token that is consumed, or the second rule consumes one.
    by_cases hsign : c.next.isPunct p = true
    · simp only [hsign, if_true] at hrun
      have := c.length_step (kind_ne_eof_of_isPunct hsign)
      have := (hx.isSteady.forward_of_ok hrun).length_le
      omega
    · simp only [hsign] at hrun
      exact hy.consumes c a d True.intro hrun

/-- Items as long as the next token is one of those they begin with. -/
theorem many_progresses (mid : α → Prop) {more : Token → Bool} {item : Parser α}
    (h : ∀ t, more t = true → Marches seen deep known (· = t) mid item) :
    Progresses seen deep known (fun items => ∀ a ∈ items, mid a) (many more item) := by
  refine .iterate (fun items t hmore => ?_) fun _ _ hnone => ?_
  · refine ((h t hmore).given And.left).eat fun a => .pure ?_
    rintro ⟨⟨-, hitems⟩, ha⟩
    exact forall_mem_concat_iff.mpr ⟨hitems, ha⟩
  · cases hnone

theorem commaSeparated_marches {item : Parser α}
    (h : Marches seen deep known Anywhere mid item) :
    Marches seen deep known pre Anything (commaSeparated item) := by
  refine h.anywhere.eat fun first => ?_
  refine (many_progresses mid fun t ht => ?_).bind fun others => .done _
  refine (Marches.step (kind_ne_eof_of_isPunct ht)).eat fun _ => ?_
  exact h.toProgresses.given fun hknown => hknown.1.1

end Judgements

end Grammar

end ProtoRoutes
