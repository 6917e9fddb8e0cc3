import Mathlib.Logic.Relation
import ProtoRoutes.Proofs.Grammar.Runs

/-!
# ProtoRoutes.Proofs.Grammar.Steadiness

**Steady rules.** A rule is `Steady` if it is put together from the operations of the cursor by
sequence and by loops of which every step consumes a token or fails. What holds of all such rules is
shown once, by induction on how they are put together. That all rules of the grammar are of this
kind is shown in `Rules`, where there is one lemma for each rule.

A steady rule moves the cursor in few ways (`Cursor.Step`). So it never goes back and never passes
the end of the stream, however it ends (`Steady.forward`), and where there are no comments, none
come up (`Steady.silent_of_ok`).
-/

namespace ProtoRoutes.Grammar

variable {α β σ : Type}

/-! ### Going forward -/

/-- One place is reached from another one without going back, in the same stream. -/
structure Forward (c d : Cursor) : Prop where
  tokens : d.tokens <:+ c.tokens
  stop : d.stop = c.stop

namespace Forward

variable {c d e : Cursor}

theorem refl (c : Cursor) : Forward c c := ⟨List.suffix_refl _, rfl⟩

theorem trans (h : Forward c d) (h' : Forward d e) : Forward c e :=
  ⟨h'.tokens.trans h.tokens, h'.stop.trans h.stop⟩

theorem length_le (h : Forward c d) : d.rest.length ≤ c.rest.length := by
  rw [← c.length_tokens, ← d.length_tokens]
  exact h.tokens.length_le

theorem step (c : Cursor) : Forward c c.step where
  tokens := by
    rw [c.tokens_step]
    exact List.tail_suffix _
  stop := c.stop_step

end Forward

/-! ### Moves of a cursor -/

namespace Cursor

/-- One move of a cursor: the next token is consumed, comments that wait are given up, or a rule
that could not be decoded is noted. -/
inductive Step : Cursor → Cursor → Prop where
  | consume {c : Cursor} {l : Lexeme} {rest : List Lexeme} (h : c.rest = l :: rest) : Step c
      { c with
        passed := c.passed ++ c.fresh, fresh := l.comments, rest, lastLine := l.token.endLine }
  | drop {c : Cursor} {fresh : List Token} (h : fresh <:+ c.fresh) :
      Step c { c with passed := [], fresh }
  | note (c : Cursor) (deferrals : List Deferral) : Step c { c with deferrals }

/-- Any number of moves. -/
def Steps : Cursor → Cursor → Prop :=
  Relation.ReflTransGen Step

variable {c d : Cursor}

theorem steps_step (c : Cursor) : Steps c c.step := by
  unfold step
  cases hrest : c.rest with
  | nil => exact .refl
  | cons l rest => exact .single (.consume hrest)

theorem Step.forward (h : c.Step d) : Forward c d := by
  cases h with
  | @consume l rest hrest => exact ⟨by simp [tokens, hrest], rfl⟩
  | drop _ => exact ⟨List.suffix_refl _, rfl⟩
  | note _ => exact ⟨List.suffix_refl _, rfl⟩

/-- No move goes back. -/
theorem Steps.forward (h : Steps c d) : Forward c d := by
  induction h with
  | refl => exact .refl c
  | tail _ hstep ih => exact ih.trans hstep.forward

/-- Moves bring up no comments. -/
theorem Steps.silent (h : Steps c d) (hc : c.Silent) : d.Silent := by
  induction h with
  | refl => exact hc
  | tail _ hstep ih =>
      obtain ⟨passed, fresh, rest⟩ := ih
      cases hstep with
      | @consume l ls hrest =>
          rw [hrest] at rest
          refine ⟨?_, rest l List.mem_cons_self, fun k hk => rest k (List.mem_cons_of_mem _ hk)⟩
          simp only [passed, fresh, List.append_nil]
      | drop hsuffix => exact ⟨rfl, List.suffix_nil.mp (fresh ▸ hsuffix), rest⟩
      | note _ => exact ⟨passed, fresh, rest⟩

end Cursor

/-- The place at which a run ends, whatever it comes to. -/
def endOf : EStateM.Result Failure Cursor α → Cursor
  | .ok _ d => d
  | .error _ d => d

/-- What is taken of the comments at the end of a declaration: the first one behind the last token,
if it is on the same line. -/
theorem takeTrailing_cases (mode : Mode) (c : Cursor) :
    takeTrailing mode c = .ok [] { c with passed := [] } ∨
      ∃ t fresh, c.fresh = t :: fresh ∧ t.pos.line = c.lastLine ∧
        takeTrailing mode c = .ok (trailingComment mode t) { c with passed := [], fresh } := by
  unfold takeTrailing
  cases hfresh : c.fresh with
  | nil => exact .inl rfl
  | cons t fresh =>
      by_cases hline : t.pos.line = c.lastLine
      · exact .inr ⟨t, fresh, rfl, hline, by simp only [hline, if_true]⟩
      · exact .inl (by simp only [hline, if_false])

theorem takeTrailing_steps (mode : Mode) (c : Cursor) :
    Cursor.Steps c (endOf (takeTrailing mode c)) := by
  rcases takeTrailing_cases mode c with hrun | ⟨t, fresh, hfresh, -, hrun⟩
  · rw [hrun]
    exact .single (.drop (List.suffix_refl _))
  · rw [hrun]
    exact .single (.drop (hfresh ▸ List.suffix_cons t fresh))

/-! ### Steady rules -/

/-- Every token. -/
abbrev Anywhere : Token → Prop := fun _ => True

/-- Where the next token satisfies `pre`, a rule consumes a token if it succeeds. -/
def Moves (pre : Token → Prop) (p : Parser α) : Prop :=
  ∀ c a d, pre c.next → p c = .ok a d → d.rest.length < c.rest.length

/-- A rule that is put together from the operations of the cursor by sequence and by loops of which
every step consumes a token or fails. What looks at the second token consumes the first one, and a
bound that is taken from the number of tokens left is one that no run depends on. -/
inductive Steady : {α : Type} → Parser α → Prop where
  | pure {α : Type} (a : α) : Steady (Pure.pure a)
  | peek : Steady Grammar.peek
  | advance : Steady Grammar.advance
  | fail {α : Type} (e : SchemaError) : Steady (Grammar.fail e : Parser α)
  | breakDown {α : Type} (b : Breakdown) : Steady (Grammar.breakDown b : Parser α)
  | takeComments (mode : Mode) : Steady (Grammar.takeComments mode)
  | takeTrailing (mode : Mode) : Steady (Grammar.takeTrailing mode)
  | defer (method : String) (errors : List RuleError) : Steady (Grammar.defer method errors)
  | bind {α β : Type} {p : Parser α} {f : α → Parser β} (hp : Steady p) (hf : ∀ a, Steady (f a)) :
      Steady (p >>= f)
  | second {β : Type} {f : Token → Parser β} (hf : ∀ u, Steady (f u))
      (hmoves : ∀ u, Moves Anywhere (f u)) : Steady (peekSecond >>= f)
  | iterate {σ : Type} {more : Token → Bool} {step : σ → Token → Parser σ}
      (hsteps : ∀ s t, more t = true → Steady (step s t))
      (hmoves : ∀ s t, more t = true → Moves (· = t) (step s t)) (s : σ) :
      Steady (Grammar.iterate more step s)
  | bounded {α : Type} {q : Nat → Parser α} (hq : ∀ n, Steady (q n))
      (hstable : ∀ n c, c.rest.length < n → q n c = q (c.rest.length + 1) c) :
      Steady fun c => q (c.rest.length + 1) c

theorem iterateFor_steps {more : Token → Bool} {step : σ → Token → Parser σ}
    (hsteps : ∀ s t, more t = true → ∀ c, Cursor.Steps c (endOf (step s t c))) (n : Nat) (s : σ)
    (c : Cursor) : Cursor.Steps c (endOf (iterateFor more step n s c)) := by
  induction n generalizing s c with
  | zero => exact .refl
  | succ n ih =>
      rw [iterateFor_succ]
      split
      · next hmore =>
          have first := hsteps s c.next hmore c
          rw [bind_run]
          generalize step s c.next c = r at first
          cases r with
          | ok s' d => exact .trans first (ih s' d)
          | error e d => exact first
      · exact .refl

namespace Steady

/-- A steady rule makes only moves of the cursor. -/
theorem steps {p : Parser α} (h : Steady p) (c : Cursor) : Cursor.Steps c (endOf (p c)) := by
  induction h generalizing c with
  | pure a => exact .refl
  | peek => exact .refl
  | advance => exact c.steps_step
  | fail e => exact .refl
  | breakDown b => exact .refl
  | takeComments mode => exact .single (.drop (List.nil_suffix))
  | takeTrailing mode => exact takeTrailing_steps mode c
  | defer method errors => exact .single (.note c _)
  | @bind _ _ p f _ _ ihp ihf =>
      have first := ihp c
      rw [bind_run]
      generalize p c = r at first
      cases r with
      | ok a d => exact .trans first (ihf a d)
      | error e d => exact first
  | second _ _ ihf => exact ihf c.second c
  | iterate _ _ s ihsteps => exact iterateFor_steps ihsteps _ s c
  | bounded _ _ ihq => exact ihq _ c

variable {p : Parser α}

theorem steps_of_ok (h : Steady p) {c d : Cursor} {a : α} (hrun : p c = .ok a d) :
    Cursor.Steps c d := by
  have ends := h.steps c
  rw [hrun] at ends
  exact ends

/-- A steady rule never goes back, and it stays in the stream. -/
theorem forward (h : Steady p) (c : Cursor) : Forward c (endOf (p c)) :=
  (h.steps c).forward

theorem forward_of_ok (h : Steady p) {c d : Cursor} {a : α} (hrun : p c = .ok a d) : Forward c d :=
  (h.steps_of_ok hrun).forward

/-- Where there are no comments, none come up. -/
theorem silent_of_ok (h : Steady p) {c d : Cursor} {a : α} (hc : c.Silent) (hrun : p c = .ok a d) :
    d.Silent :=
  (h.steps_of_ok hrun).silent hc

end Steady

end ProtoRoutes.Grammar
