import ProtoRoutes.Proofs.Grammar.Reads

/-!
# ProtoRoutes.Proofs.Grammar.Beside

**Two readings side by side.** The left one is quiet: it drops comments, or its stream has none. The
right one may keep them. The tokens in front of both say the same, and unless they are `moved`, they
are the same tokens.

`Mirrors moved comments R p q` says that two rules which start so end so, with results that `R`
relates or with failures of the same kind; unless tokens are moved, with the same failure.
-/

namespace ProtoRoutes

/-! ### Trees without comments -/

/-- A field without its comments. -/
def Field.bare (f : Field) : Field :=
  { f with comments := [] }

/-- A oneof without the comments in it. -/
def Oneof.bare (o : Oneof) : Oneof :=
  { o with fields := o.fields.map Field.bare, comments := [] }

/-- A value of an enum without its comments. -/
def EnumValue.bare (v : EnumValue) : EnumValue :=
  { v with comments := [] }

/-- An enum without the comments in it. -/
def Enumeration.bare (e : Enumeration) : Enumeration :=
  { e with values := e.values.map EnumValue.bare, comments := [] }

/-- A method without its comments. -/
def Method.bare (m : Method) : Method :=
  { m with comments := [] }

/-- A service without the comments in it. -/
def Service.bare (s : Service) : Service :=
  { s with methods := s.methods.map Method.bare, comments := [] }

mutual

/-- A message without the comments in it. -/
def Message.bare : Message → Message
  | ⟨name, fields, messages, enums, options, _, oneofs, reservedRanges, reservedNames⟩ =>
    ⟨name, fields.map Field.bare, Message.bareAll messages, enums.map Enumeration.bare, options, [],
      oneofs.map Oneof.bare, reservedRanges, reservedNames⟩

/-- Messages without the comments in them. -/
def Message.bareAll : List Message → List Message
  | [] => []
  | m :: ms => m.bare :: Message.bareAll ms

end

/-- The list version of taking comments away is a map. -/
theorem Message.bareAll_eq_map (ms : List Message) : Message.bareAll ms = ms.map Message.bare := by
  induction ms with
  | nil => rfl
  | cons m ms ih => rw [Message.bareAll, ih, List.map_cons]

/-- A file without the comments in it. -/
def SchemaFile.bare (f : SchemaFile) : SchemaFile :=
  { f with
    services := f.services.map Service.bare
    messages := f.messages.map Message.bare
    enums := f.enums.map Enumeration.bare }

namespace Grammar

/-- A draft without the comments in it. -/
def Draft.bare (d : Draft) : Draft :=
  { d with message := d.message.bare }

/-- A reading without the comments in its tree. -/
def Reading.bare (r : Reading) : Reading :=
  { r with outcome := r.outcome.map SchemaFile.bare }

end Grammar

/-! ### Failures and tokens at other places -/

/-- Whether a failure is an error, and no breakdown. -/
def Failure.isError : Failure → Bool
  | error _ => true
  | breakdown _ => false

/-- Whether an error can be printed depends on the numbers in it only. -/
theorem Failure.isError_report {e e' : SchemaError} (h : e.numbers = e'.numbers) :
    (Failure.report e).isError = (Failure.report e').isError := by
  unfold Failure.report
  rw [h]
  split
  · rfl
  · rfl

/-- A token at another place. -/
def Token.moved (t : Token) (pos : Position) (line : Nat) : Token :=
  { t with pos, endLine := line }

/-- Tokens of one shape differ in their place only. -/
theorem Token.eq_moved {t u : Token} (h : t.shape = u.shape) : u = t.moved u.pos u.endLine := by
  obtain ⟨kind, text, pos, line⟩ := t
  obtain ⟨kind', text', pos', line'⟩ := u
  cases h
  rfl

namespace Grammar

variable {α β σ : Type}

/-- Unless tokens are moved, the other place is that of the token. -/
def Stays (moved : Bool) (t : Token) (pos : Position) (line : Nat) : Prop :=
  moved = false → t.moved pos line = t

theorem Stays.line {moved : Bool} {t : Token} {pos : Position} {line : Nat}
    (h : Stays moved t pos line) (hmoved : moved = false) : t.pos.line = pos.line :=
  congrArg (·.pos.line) (h hmoved).symm

/-- Two tokens that say the same, and are the same unless tokens are moved. -/
structure SameToken (moved : Bool) (t u : Token) : Prop where
  shape : t.shape = u.shape
  same : moved = false → t = u

/-! ### Two places side by side -/

/-- Two places in front of tokens that say the same, where the left one gives no comments. Unless
tokens are moved, nothing but comments is different. -/
structure Beside (moved comments : Bool) (c d : Cursor) : Prop where
  shapes : c.shapes = d.shapes
  quiet : comments = true → c.Silent
  same : moved = false → c.tokens = d.tokens ∧ c.stop = d.stop ∧ c.deferrals = d.deferrals

namespace Beside

variable {moved comments : Bool} {c d : Cursor}

theorem length_eq (h : Beside moved comments c d) : c.rest.length = d.rest.length := by
  rw [← c.length_shapes, ← d.length_shapes, h.shapes]

/-- The next tokens of two places side by side are the same but for their place. -/
theorem next (h : Beside moved comments c d) : SameToken moved c.next d.next where
  shape := by
    cases hshapes : c.shapes with
    | nil =>
        have hc : c.tokens = [] := List.map_eq_nil_iff.mp hshapes
        have hd : d.tokens = [] := List.map_eq_nil_iff.mp (h.shapes.symm.trans hshapes)
        rw [c.next_eq, d.next_eq, hc, hd]
        rfl
    | cons s rest =>
        exact (Cursor.next_shape hshapes).trans
          (Cursor.next_shape (h.shapes.symm.trans hshapes)).symm
  same hmoved := by
    obtain ⟨tokens, stop, -⟩ := h.same hmoved
    rw [c.next_eq, d.next_eq, tokens, stop]

theorem second (h : Beside moved comments c d) : SameToken moved c.second d.second where
  shape := by
    rw [c.second_eq, d.second_eq]
    have tails : c.tokens.tail.map Token.shape = d.tokens.tail.map Token.shape := by
      rw [List.map_tail, List.map_tail]
      exact congrArg List.tail h.shapes
    cases hc : c.tokens.tail with
    | nil =>
        rw [hc] at tails
        rw [List.map_eq_nil_iff.mp tails.symm]
        rfl
    | cons t ts =>
        rw [hc, List.map_cons] at tails
        obtain ⟨u, us, hd, hu, -⟩ := List.map_eq_cons_iff.mp tails.symm
        rw [hd]
        exact hu.symm
  same hmoved := by
    obtain ⟨tokens, stop, -⟩ := h.same hmoved
    rw [c.second_eq, d.second_eq, tokens, stop]

/-- Places side by side stay so when both go one token further. -/
theorem step (h : Beside moved comments c d) : Beside moved comments c.step d.step where
  shapes := by rw [c.shapes_step, d.shapes_step, h.shapes]
  quiet hcomments := (h.quiet hcomments).step
  same hmoved := by
    obtain ⟨tokens, stop, deferrals⟩ := h.same hmoved
    rw [c.tokens_step, d.tokens_step, c.stop_step, d.stop_step, c.deferrals_step, d.deferrals_step]
    exact ⟨by rw [tokens], stop, deferrals⟩

/-- Comments that were passed, or wait, may be dropped or kept on the right. -/
theorem drop (h : Beside moved comments c d) {passed passed' fresh fresh' : List Token}
    (hquiet : comments = true → passed = [] ∧ fresh = []) :
    Beside moved comments { c with passed, fresh } { d with passed := passed', fresh :=
      fresh' } where
  shapes := h.shapes
  quiet hcomments := ⟨(hquiet hcomments).1, (hquiet hcomments).2, (h.quiet hcomments).rest⟩
  same := h.same

theorem refl (c : Cursor) : Beside moved false c c :=
  ⟨rfl, nofun, fun _ => ⟨rfl, rfl, rfl⟩⟩

/-- Where comments are dropped and tokens are moved, all that matters is what the tokens say. -/
theorem of_shapes (h : c.shapes = d.shapes) : Beside true false c d :=
  ⟨h, nofun, nofun⟩

end Beside

/-! ### Rules that mirror each other -/

/-- Two runs that end alike: with failures of the same kind, or with results that `R` relates, in
front of tokens that say the same. -/
inductive Alike (moved comments : Bool) (R : α → α → Prop) :
    EStateM.Result Failure Cursor α → EStateM.Result Failure Cursor α → Prop where
  | ok {a b : α} {c d : Cursor} (related : R a b) (beside : Beside moved comments c d) :
      Alike moved comments R (.ok a c) (.ok b d)
  | error {e e' : Failure} {c d : Cursor} (kind : e.isError = e'.isError)
      (same : moved = false → e = e' ∧ c.deferrals = d.deferrals) :
      Alike moved comments R (.error e c) (.error e' d)

/-- Two rules that end alike wherever they start side by side. -/
def Mirrors (moved comments : Bool) (R : α → α → Prop) (p q : Parser α) : Prop :=
  ∀ c d, Beside moved comments c d → Alike moved comments R (p c) (q d)

/-- A rule that comments and places mean nothing to. -/
def Blind (moved comments : Bool) (p : Parser α) : Prop :=
  Mirrors moved comments Eq p p

namespace Mirrors

variable {moved comments : Bool} {R : α → α → Prop} {S : β → β → Prop} {p q : Parser α}

theorem pure {a b : α} (h : R a b) : Mirrors moved comments R (Pure.pure a) (Pure.pure b) :=
  fun _ _ beside => .ok h beside

/-- Two errors with the same numbers can be printed both or neither. -/
theorem fail {e e' : SchemaError} (h : e.numbers = e'.numbers) (hsame : moved = false → e = e') :
    Mirrors moved comments R (Grammar.fail e) (Grammar.fail e') :=
  fun _ _ beside => .error (Failure.isError_report h) fun hmoved =>
    ⟨congrArg Failure.report (hsame hmoved), (beside.same hmoved).2.2⟩

/-- The error of a token that something else was expected for. -/
theorem unexpected {t : Token} {pos : Position} {line : Nat} (ht : Stays moved t pos line)
    {expected : Expected} : Mirrors moved comments R (Grammar.unexpected t expected)
      (Grammar.unexpected (t.moved pos line) expected) := by
  refine fail rfl fun hmoved => ?_
  rw [ht hmoved]

theorem breakDown (b : Breakdown) :
    Mirrors moved comments R (Grammar.breakDown b) (Grammar.breakDown b) :=
  fun _ _ beside => .error rfl fun hmoved => ⟨rfl, (beside.same hmoved).2.2⟩

/-- Sequences mirror each other if their parts do, with related results in between. -/
theorem bind {f g : α → Parser β} (hp : Mirrors moved comments R p q)
    (hf : ∀ a b, R a b → Mirrors moved comments S (f a) (g b)) :
    Mirrors moved comments S (p >>= f) (q >>= g) := by
  intro c d beside
  rw [bind_run, bind_run]
  have ends := hp c d beside
  generalize p c = x, q d = y at ends
  cases ends with
  | ok related beside' => exact hf _ _ related _ _ beside'
  | error kind same => exact .error kind same

/-- A rule with the same result on both sides, and what follows it. -/
theorem andThen {f g : α → Parser β} (hp : Mirrors moved comments Eq p q)
    (hf : ∀ a, Mirrors moved comments S (f a) (g a)) :
    Mirrors moved comments S (p >>= f) (q >>= g) :=
  hp.bind fun a _ h => h ▸ hf a

/-- A rule whose result is not asked for, and what follows it. -/
theorem skip {f g : Parser β} (hp : Mirrors moved comments R p q)
    (hf : Mirrors moved comments S f g) :
    Mirrors moved comments S (p >>= fun _ => f) (q >>= fun _ => g) :=
  hp.bind fun _ _ _ => hf

/-- A rule that comes to a token, and what follows it. -/
theorem andToken {p q : Parser Token} {f g : Token → Parser β}
    (hp : Mirrors moved comments (SameToken moved) p q)
    (hf : ∀ t pos line, Stays moved t pos line →
      Mirrors moved comments S (f t) (g (t.moved pos line))) :
    Mirrors moved comments S (p >>= f) (q >>= g) := by
  refine hp.bind fun t u h => ?_
  have stays : Stays moved t u.pos u.endLine := fun hmoved => by
    rw [← Token.eq_moved h.shape, h.same hmoved]
  rw [Token.eq_moved h.shape]
  exact hf t u.pos u.endLine stays

theorem map {g : α → β} (hp : Mirrors moved comments Eq p q) :
    Mirrors moved comments Eq (g <$> p) (g <$> q) := by
  rw [map_eq_bind, map_eq_bind]
  exact hp.andThen fun a => pure rfl

/-- A choice that is made in the same way on both sides. -/
theorem ite {P : Prop} [Decidable P] {p p' q q' : Parser α} (h : P → Mirrors moved comments R p q)
    (h' : ¬P → Mirrors moved comments R p' q') :
    Mirrors moved comments R (if P then p else p') (if P then q else q') := by
  by_cases hP : P
  · rw [if_pos hP, if_pos hP]
    exact h hP
  · rw [if_neg hP, if_neg hP]
    exact h' hP

/-- One step of two loops keeps their states related, so any number of steps does. -/
theorem iterateFor {R : σ → σ → Prop} {more : Token → Bool} {step step' : σ → Token → Parser σ}
    (hmore : ∀ t pos line, more (t.moved pos line) = more t)
    (h : ∀ s s' t pos line, Stays moved t pos line → R s s' →
      Mirrors moved comments R (step s t) (step' s' (t.moved pos line))) (n : Nat) {s s' : σ}
    (hs : R s s') :
    Mirrors moved comments R (Grammar.iterateFor more step n s)
      (Grammar.iterateFor more step' n s') := by
  induction n generalizing s s' with
  | zero => exact breakDown _
  | succ n ih =>
      intro c d beside
      have stays : Stays moved c.next d.next.pos d.next.endLine := fun hmoved => by
        rw [← Token.eq_moved beside.next.shape, beside.next.same hmoved]
      rw [iterateFor_succ, iterateFor_succ, Token.eq_moved beside.next.shape, hmore]
      split
      · exact (h s s' c.next _ _ stays hs).bind (fun _ _ => ih) c d beside
      · exact .ok hs beside

/-- A loop mirrors another one if each step does; both may make the same number of steps. -/
theorem iterate {R : σ → σ → Prop} {more : Token → Bool} {step step' : σ → Token → Parser σ}
    (hmore : ∀ t pos line, more (t.moved pos line) = more t)
    (h : ∀ s s' t pos line, Stays moved t pos line → R s s' →
      Mirrors moved comments R (step s t) (step' s' (t.moved pos line))) {s s' : σ} (hs : R s s') :
    Mirrors moved comments R (Grammar.iterate more step s) (Grammar.iterate more step' s') := by
  intro c d beside
  unfold Grammar.iterate
  rw [beside.length_eq]
  exact iterateFor hmore h _ hs c d beside

/-- The loop over the items of a block. -/
theorem block {R : σ → σ → Prop} {step step' : σ → Token → Parser σ}
    (h : ∀ s s' t pos line, Stays moved t pos line → R s s' →
      Mirrors moved comments R (step s t) (step' s' (t.moved pos line))) {s s' : σ} (hs : R s s') :
    Mirrors moved comments R (untilBrace step s) (untilBrace step' s') :=
  .iterate (fun _ _ _ => rfl) h hs

/-- If a rule that drops comments mirrors itself, there are none in its results. -/
theorem bare_of_ok {bare : α → α} (h : Mirrors false false (fun a b => a = bare b) p p)
    {c d : Cursor} {a : α} (hrun : p c = .ok a d) : a = bare a := by
  have ends := h c c (.refl c)
  rw [hrun] at ends
  cases ends with
  | ok heq _ => exact heq

/-- So it comes to the same wherever the same is said. -/
theorem blind {bare : α → α} (h : ∀ moved, Mirrors moved false (fun a b => a = bare b) p p) :
    Blind moved false p := by
  intro c d beside
  have ends := h moved c d beside
  cases hleft : p c with
  | ok a c' =>
      rw [hleft] at ends
      cases hright : p d with
      | ok b d' =>
          rw [hright] at ends
          cases ends with
          | ok heq beside' => exact .ok (heq.trans ((h false).bare_of_ok hright).symm) beside'
      | error e d' =>
          rw [hright] at ends
          cases ends
  | error e c' =>
      rw [hleft] at ends
      generalize p d = y at ends
      cases ends with
      | error kind same => exact .error kind same

end Mirrors

/-! ### The operations of the cursor -/

section Operations

variable {moved comments : Bool}

theorem peek_mirrors : Mirrors moved comments (SameToken moved) peek peek :=
  fun _ _ beside => .ok beside.next beside

theorem peekSecond_mirrors : Mirrors moved comments (SameToken moved) peekSecond peekSecond :=
  fun _ _ beside => .ok beside.second beside

theorem advance_mirrors : Mirrors moved comments (SameToken moved) advance advance :=
  fun _ _ beside => .ok beside.next beside.step

theorem expectKind_mirrors (kind : TokenKind) (expected : Expected) :
    Mirrors moved comments (SameToken moved) (expectKind kind expected)
      (expectKind kind expected) :=
  peek_mirrors.andToken fun _ _ _ ht => .ite (fun _ => advance_mirrors) fun _ => .unexpected ht

theorem expectSign_mirrors (p : Punct) :
    Mirrors moved comments (SameToken moved) (expectSign p) (expectSign p) :=
  expectKind_mirrors _ _

theorem expectKeyword_mirrors (k : Keyword) :
    Mirrors moved comments (SameToken moved) (expectKeyword k) (expectKeyword k) :=
  expectKind_mirrors _ _

theorem expectName_mirrors (expected : Expected) :
    Mirrors moved comments (SameToken moved) (expectName expected) (expectName expected) :=
  peek_mirrors.andToken fun _ _ _ ht => .ite (fun _ => advance_mirrors) fun _ => .unexpected ht

theorem accept_blind (p : Punct) : Blind moved comments (accept p) :=
  peek_mirrors.andToken fun _ _ _ _ =>
    .ite (fun _ => advance_mirrors.skip (.pure rfl)) fun _ => .pure rfl

theorem many_blind {more : Token → Bool} {item : Parser α}
    (hmore : ∀ t pos line, more (t.moved pos line) = more t) (h : Blind moved comments item) :
    Blind moved comments (many more item) := by
  refine .iterate hmore (fun items items' _ _ _ _ heq => ?_) rfl
  subst heq
  exact Mirrors.andThen h fun _ => .pure rfl

theorem commaSeparated_blind {item : Parser α} (h : Blind moved comments item) :
    Blind moved comments (commaSeparated item) := by
  refine Mirrors.andThen h fun first => ?_
  exact (many_blind (fun _ _ _ => rfl) (advance_mirrors.skip h)).andThen fun others => .pure rfl

/-- The quiet side collects nothing, whatever the other side collects. -/
theorem takeComments_mirrors (strict right : Bool) {R : α → α → Prop}
    {f g : List Comment → Parser α} (h : ∀ before, Mirrors moved comments R (f []) (g before)) :
    Mirrors moved comments R (takeComments ⟨strict, comments⟩ >>= f)
      (takeComments ⟨strict, right⟩ >>= g) := by
  have taken : Mirrors moved comments (fun a _ => a = []) (takeComments ⟨strict, comments⟩)
      (takeComments ⟨strict, right⟩) := by
    intro c d beside
    refine .ok ?_ (beside.drop fun _ => ⟨rfl, rfl⟩)
    cases comments with
    | false => rfl
    | true =>
        obtain ⟨passed, fresh, -⟩ := beside.quiet rfl
        simp [passed, fresh, commentsBefore]
  exact taken.bind fun _ before heq => heq ▸ h before

/-- The comment behind a sign goes into the tree on one side only. -/
theorem takeTrailing_mirrors (strict right : Bool) {R : α → α → Prop}
    {f g : List Comment → Parser α} (h : ∀ behind, Mirrors moved comments R (f []) (g behind)) :
    Mirrors moved comments R (takeTrailing ⟨strict, comments⟩ >>= f)
      (takeTrailing ⟨strict, right⟩ >>= g) := by
  have taken : Mirrors moved comments (fun a _ => a = []) (takeTrailing ⟨strict, comments⟩)
      (takeTrailing ⟨strict, right⟩) := by
    intro c d beside
    obtain ⟨found, fresh, hrun, hdrop, hsilent⟩ := takeTrailing_run ⟨strict, comments⟩ c
    obtain ⟨found', fresh', hrun', -, -⟩ := takeTrailing_run ⟨strict, right⟩ d
    rw [hrun, hrun']
    refine .ok ?_ (beside.drop fun hcomments => ?_)
    · cases comments with
      | false => exact hdrop rfl
      | true => exact (hsilent (beside.quiet rfl).fresh).1
    · exact ⟨rfl, (hsilent (beside.quiet hcomments).fresh).2⟩
  exact taken.bind fun _ behind heq => heq ▸ h behind

/-- The last sign of a statement, and the comment behind it. -/
theorem lastSign_mirrors (strict right : Bool) (p : Punct) {R : α → α → Prop}
    {g g' : List Comment → α} (h : ∀ behind, R (g []) (g' behind)) : Mirrors moved comments R
      (do
        let _ ← expectSign p
        let trailing ← takeTrailing ⟨strict, comments⟩
        pure (g trailing))
      (do
        let _ ← expectSign p
        let trailing ← takeTrailing ⟨strict, right⟩
        pure (g' trailing)) :=
  (expectSign_mirrors p).skip (takeTrailing_mirrors strict right fun behind => .pure (h behind))

theorem defer_blind (method : String) (errors : List RuleError) :
    Blind moved comments (defer method errors) := by
  intro c d beside
  refine .ok rfl ⟨beside.shapes, fun hcomments => ?_, fun hmoved => ?_⟩
  · obtain ⟨passed, fresh, rest⟩ := beside.quiet hcomments
    exact ⟨passed, fresh, rest⟩
  · obtain ⟨tokens, stop, deferrals⟩ := beside.same hmoved
    refine ⟨tokens, stop, ?_⟩
    show c.deferrals ++ _ = d.deferrals ++ _
    rw [deferrals]

end Operations

end Grammar

end ProtoRoutes
