import ProtoRoutes.Proofs.Grammar.Progress

/-!
# ProtoRoutes.Proofs.Grammar.Rules

**One lemma for each rule of the grammar**, with all that is to be known of the rule by itself. It
is steady and consumes a token, or it does neither more nor less than not to go back; its failures
have a reason; the names in its result are those of name tokens, and the numbers that a later report
may quote are those of number tokens. Rules that open neither messages nor message literals never
report that the nesting is too deep.

Values nest with a bound that is taken from the number of tokens left. It is no part of what is
read: every bound above that number gives the same, whatever would be done beyond it
(`valueFrom_agrees`).
-/

namespace ProtoRoutes.Grammar

variable {α β σ : Type}

/-! ### Names and numbers -/

section Names

variable {seen : Token → Prop} {deep : Bool} {known : Prop} {pre : Token → Prop}

/-- Names with dots between them are made of name tokens. -/
theorem fullIdent_marches : Marches seen deep known pre (IsJoined (Names seen)) fullIdent := by
  refine (expectName_marches _).eat fun first => ?_
  refine (many_progresses (Names seen) fun t ht => ?_).bind fun others => .pure ?_
  · refine (Marches.step (kind_ne_eof_of_isPunct ht)).eat fun _ => ?_
    exact (expectName_marches _).bind fun u => .pure And.right
  · rintro ⟨⟨-, hfirst⟩, hothers⟩
    exact ⟨first.text, others, rfl, List.forall_mem_cons.mpr ⟨hfirst, hothers⟩⟩

theorem typeName_marches : Marches seen deep known pre Anything typeName :=
  .after (accept_progresses _) fun _ => fullIdent_marches.eat fun _ => .done _

theorem stringValue_marches : Marches seen deep known pre Anything stringValue := by
  refine (expectKind_marches _ (by simp)).eat fun first => ?_
  refine (many_progresses Anything fun t ht => ?_).bind fun others => .done _
  have hkind : t.kind = .string := by simpa using ht
  exact (Marches.step (by simp [hkind])).eat fun u => .done u.text

/-- The sign is not part of the token, so the number is quotable by its size alone. -/
theorem signedInteger_marches : Marches seen deep known pre (Quotable seen) signedInteger := by
  refine .after (accept_progresses _) fun negative => ?_
  refine (expectKind_marches _ (by simp)).eat fun t => ?_
  split
  · next n hinteger =>
      refine .pure fun ⟨_, ht, hkind⟩ => .inr ⟨t, ht, hkind, ?_⟩
      rw [hinteger]
      cases negative <;> simp
  · exact .fail rfl

/-- A number that cannot be read is the only reason for a breakdown here, and the token is to blame.
-/
theorem numberOf_progresses {t : Token} (ht : known → seen t ∧ t.kind = .number) :
    Progresses seen deep known Anything (numberOf t) := by
  unfold numberOf
  split
  · exact .done _
  · next fault hreal =>
      refine ⟨.breakDown _, fun hknown _ _ => .error ?_⟩
      exact .number (ht hknown).1 (ht hknown).2 hreal

theorem unsignedNumber_marches : Marches seen deep known pre Anything unsignedNumber := by
  refine .look fun t => ?_
  split
  · next hkind =>
      have hreal : t.kind ≠ .eof := by simp [hkind]
      exact (Marches.step hreal).eat fun _ => numberOf_progresses fun h => ⟨h.1.2 hreal, hkind⟩
  split
  · next hword => exact (Marches.step (kind_ne_eof_of_isWord hword)).eat fun _ => .done _
  split
  · next hword => exact (Marches.step (kind_ne_eof_of_isWord hword)).eat fun _ => .done _
  · exact .fail rfl

end Names

/-! ### Values -/

section Values

variable {seen : Token → Prop} {deep : Bool} {known : Prop} {pre : Token → Prop}

theorem literalKey_marches : Marches seen deep known pre Anything literalKey := by
  refine accept_choice_marches _ ?_ ?_
  · exact fullIdent_marches.bind fun name => (expectSign_marches _).bind fun _ => .done _
  · exact (expectName_marches _).eat fun t => .done t.text

theorem literalSeparator_progresses : Progresses seen deep known Anything literalSeparator := by
  refine (accept_progresses _).bind fun found => ?_
  split
  · exact .done ()
  · exact (accept_progresses _).bind fun _ => .done ()

theorem literalFieldValue_progresses {value : Parser Value}
    (hvalue : Progresses seen deep known Anything value) (key : String) :
    Progresses seen deep known Anything (literalFieldValue value key) := by
  refine (accept_progresses _).bind fun found => ?_
  split
  · exact hvalue.given And.left
  · refine .look fun t => ?_
    split
    · exact hvalue.given fun h => h.1.1
    · exact .fail rfl

/-- A step of the loop over the fields of a message literal. -/
theorem literalField_marches {value : Parser Value}
    (hvalue : Progresses seen deep known Anything value) (fields : List (String × Value))
    (t : Token) : Marches seen deep known pre Anything (do
      if t.kind = .eof then unexpected t .literalEnd
      let key ← literalKey
      let v ← literalFieldValue value key
      literalSeparator
      pure (Value.addField fields key v)) := by
  split
  · exact .fail rfl
  · refine literalKey_marches.eat fun key => ?_
    refine (literalFieldValue_progresses (hvalue.given And.left) key).bind fun v => ?_
    exact literalSeparator_progresses.bind fun _ => .done _

/-- Every field of a literal consumes its key at least, so the fields come to an end. -/
theorem literalFields_progresses {value : Parser Value}
    (hvalue : Progresses seen deep known Anything value) :
    Progresses seen deep known Anything (literalFields value) :=
  .loop (fun fields t _ => literalField_marches hvalue fields t) []

theorem listLiteral_progresses {value : Parser Value}
    (hvalue : Marches seen deep known Anywhere Anything value) :
    Progresses seen deep known Anything (listLiteral value) := by
  have close {known : Prop} (items : List Value) : Progresses seen deep known Anything (do
      let _ ← expectSign .rbracket
      pure (Value.list items)) :=
    (expectSign_marches _).bind fun _ => .done _
  refine .look fun t => ?_
  split
  · exact close []
  · exact (commaSeparated_marches (hvalue.given And.left)).bind fun items => close items

/-- Here a message literal may be one too many. -/
theorem messageLiteral_progresses {value : Nat → Parser Value}
    (hvalue : ∀ room, Progresses seen true known Anything (value room)) (brace : Token)
    (room : Nat) : Progresses seen true known Anything (messageLiteral value brace room) := by
  cases room with
  | zero => exact .report rfl (fun _ => rfl) fun _ n hn => nomatch hn
  | succ room =>
      refine (literalFields_progresses (hvalue room)).bind fun fields => ?_
      exact (expectSign_marches _).bind fun _ => .done _

/-- A value consumes its first token, whatever it is. Those inside it may be any rules that consume
one. -/
theorem valueStep_marches {value : Nat → Parser Value}
    (hvalue : ∀ room, Marches seen true known Anywhere Anything (value room)) (room : Nat) :
    Marches seen true known pre Anything (valueStep value room) := by
  refine .look fun t => ?_
  have here {known : Prop} : t.kind ≠ .eof → Marches seen true known (· = t) Anything advance :=
    Marches.step
  split
  · exact stringValue_marches.map
  · next hkind =>
      exact (here (by simp [hkind])).eat fun _ => unsignedNumber_marches.bind fun _ => .done _
  · next hkind =>
      exact (here (by simp [hkind])).eat fun _ => unsignedNumber_marches.bind fun _ => .done _
  · next hkind =>
      have hreal : t.kind ≠ .eof := by simp [hkind]
      refine (here hreal).eat fun _ => ?_
      exact (numberOf_progresses fun h => ⟨h.1.2 hreal, hkind⟩).bind fun _ => .done _
  · next hkind =>
      refine (here (by simp [hkind])).eat fun _ => ?_
      exact messageLiteral_progresses
        (fun room => (hvalue room).toProgresses.given fun h => h.1.1) t room
  · next hkind =>
      refine (here (by simp [hkind])).eat fun _ => ?_
      exact listLiteral_progresses ((hvalue room).given fun h => h.1.1)
  · split
    · next hword =>
        have hreal : t.kind ≠ .eof := by
          rcases Bool.or_eq_true_iff.mp hword with hword | hword
          · exact kind_ne_eof_of_isWord hword
          · exact kind_ne_eof_of_isWord hword
        exact (here hreal).eat fun _ => .done _
    split
    · exact fullIdent_marches.map
    · exact .fail rfl

/-- Values with something else instead of those in which literals stand inside each other `bound`
times or more. -/
def valueFrom (other : Parser Value) : Nat → Nat → Parser Value
  | 0, _ => other
  | bound + 1, room => valueStep (valueFrom other bound) room

theorem valueWithin_eq (bound : Nat) :
    valueWithin bound = valueFrom (breakDown .stalled) bound := by
  induction bound with
  | zero => rfl
  | succ bound ih => exact funext fun room => congrArg (valueStep · room) ih

/-- Values consume a token at every depth if what stands at the bottom does. -/
theorem valueFrom_marches {other : Parser Value}
    (hother : Marches seen true known Anywhere Anything other) (bound room : Nat) :
    Marches seen true known Anywhere Anything (valueFrom other bound room) := by
  induction bound generalizing room with
  | zero => exact hother
  | succ bound ih => exact valueStep_marches ih room

/-- With the bound used up there is a breakdown for which no text is to blame. So of the rule with a
bound no more is said than that it is steady. -/
theorem valueWithin_marches (bound room : Nat) :
    Marches Anywhere true False pre Anything (valueWithin bound room) := by
  rw [valueWithin_eq]
  refine (valueFrom_marches ⟨⟨.breakDown _, False.elim⟩, ?_⟩ bound room).anywhere
  exact fun _ _ _ _ hrun => nomatch hrun

end Values

/-! ### Bounds of values -/

/-- Two rules that do the same in front of less than `size` tokens, if the first one satisfies
`pre`. -/
def AgreesBelow (size : Nat) (pre : Token → Prop) (p q : Parser α) : Prop :=
  ∀ c : Cursor, c.rest.length < size → pre c.next → p c = q c

namespace AgreesBelow

variable {size : Nat} {pre : Token → Prop} {p q : Parser α} {f g : α → Parser β}

theorem refl (p : Parser α) : AgreesBelow size pre p p :=
  fun _ _ _ => rfl

theorem anywhere (h : AgreesBelow size Anywhere p q) : AgreesBelow size pre p q :=
  fun c hlt _ => h c hlt True.intro

/-- Two sequences agree if their parts do, since the first part never goes back. -/
theorem bind (hp : Steady p) (hpq : AgreesBelow size pre p q)
    (hf : ∀ a, AgreesBelow size Anywhere (f a) (g a)) :
      AgreesBelow size pre (p >>= f) (q >>= g) := by
  intro c hlt hpre
  rw [bind_run, bind_run, ← hpq c hlt hpre]
  cases hrun : p c with
  | ok a d =>
      exact hf a d (Nat.lt_of_le_of_lt (hp.forward_of_ok hrun).length_le hlt) True.intro
  | error e d => rfl

/-- A rule and what follows it on either side. -/
theorem andThen (hp : Steady p) (hf : ∀ a, AgreesBelow size Anywhere (f a) (g a)) :
    AgreesBelow size pre (p >>= f) (p >>= g) :=
  bind hp (refl p) hf

theorem look {f g : Token → Parser β} (h : ∀ t, AgreesBelow size (· = t) (f t) (g t)) :
    AgreesBelow size pre (peek >>= f) (peek >>= g) :=
  fun c hlt _ => h c.next c hlt rfl

/-- Behind a rule that consumes a token there is less to read. -/
theorem eat (hp : Moves pre p) (hf : ∀ a, AgreesBelow size Anywhere (f a) (g a)) :
    AgreesBelow (size + 1) pre (p >>= f) (p >>= g) := by
  intro c hlt hpre
  rw [bind_run, bind_run]
  cases hrun : p c with
  | ok a d =>
      have := hp c a d hpre hrun
      exact hf a d (by omega) True.intro
  | error e d => rfl

/-- Loops agree for every number of steps. -/
theorem iterateFor {more : Token → Bool} {step step' : σ → Token → Parser σ}
    (hsteady : ∀ s t, Steady (step s t))
    (h : ∀ s t, AgreesBelow size Anywhere (step s t) (step' s t)) (n : Nat) (s : σ) :
    AgreesBelow size Anywhere (Grammar.iterateFor more step n s)
      (Grammar.iterateFor more step' n s) := by
  induction n generalizing s with
  | zero => exact refl _
  | succ n ih =>
      intro c hlt _
      rw [iterateFor_succ, iterateFor_succ]
      split
      · exact bind (hsteady s c.next) (h s c.next) ih c hlt True.intro
      · rfl

theorem iterate {more : Token → Bool} {step step' : σ → Token → Parser σ}
    (hsteady : ∀ s t, Steady (step s t))
    (h : ∀ s t, AgreesBelow size Anywhere (step s t) (step' s t)) (s : σ) :
    AgreesBelow size pre (Grammar.iterate more step s) (Grammar.iterate more step' s) :=
  fun c hlt _ => iterateFor hsteady h _ s c hlt True.intro

end AgreesBelow

section Bounds

variable {size : Nat} {pre : Token → Prop}

theorem literalFieldValue_agrees {value value' : Parser Value}
    (h : AgreesBelow size Anywhere value value') (key : String) :
    AgreesBelow size pre (literalFieldValue value key) (literalFieldValue value' key) := by
  refine .andThen (accept_progresses _).steady fun found => ?_
  split
  · exact h
  · refine .look fun t => ?_
    split
    · exact h.anywhere
    · exact .refl _

/-- The values of a literal are all inside the text behind the brace. -/
theorem literalFields_agrees {value value' : Parser Value}
    (hvalue : Progresses Anywhere true False Anything value)
    (h : AgreesBelow size Anywhere value value') :
    AgreesBelow size pre (literalFields value) (literalFields value') := by
  unfold literalFields untilBrace
  refine .iterate (fun fields t => ?_) (fun fields t => ?_) []
  · exact (literalField_marches hvalue fields t).steady
  · split
    · exact .refl _
    · refine .andThen literalKey_marches.steady fun key => ?_
      exact .bind (literalFieldValue_progresses hvalue key).steady (literalFieldValue_agrees h key)
        fun v => .refl _

theorem messageLiteral_agrees {value value' : Nat → Parser Value}
    (hvalue : ∀ room, Progresses Anywhere true False Anything (value room))
    (h : ∀ room, AgreesBelow size Anywhere (value room) (value' room)) (brace : Token)
    (room : Nat) :
    AgreesBelow size pre (messageLiteral value brace room) (messageLiteral value' brace room) := by
  cases room with
  | zero => exact .refl _
  | succ room =>
      exact .bind (literalFields_progresses (hvalue room)).steady
        (literalFields_agrees (hvalue room) (h room)) fun fields => .refl _

/-- Items that agree on short texts agree as a list, of which each is inside the rest of the text.
-/
theorem commaSeparated_agrees {item item' : Parser α}
    (hitem : Marches Anywhere true False Anywhere Anything item)
    (h : AgreesBelow size Anywhere item item') :
    AgreesBelow size pre (commaSeparated item) (commaSeparated item') := by
  have behind : Steady (advance >>= fun _ => item) := .bind .advance fun _ => hitem.steady
  have others : Steady (many (·.isPunct .comma) (advance >>= fun _ => item)) :=
    (many_progresses Anything fun t ht =>
      (Marches.step (kind_ne_eof_of_isPunct ht)).eat fun _ =>
        hitem.toProgresses.given And.left).steady
  refine .bind hitem.steady h.anywhere fun first => .bind others ?_ fun _ => .refl _
  refine .iterate (fun _ _ => behind.bind fun _ => .pure _) (fun _ _ => ?_) []
  exact .bind behind (.andThen .advance fun _ => h) fun _ => .refl _

theorem listLiteral_agrees {value value' : Parser Value}
    (hvalue : Marches Anywhere true False Anywhere Anything value)
    (h : AgreesBelow size Anywhere value value') :
    AgreesBelow size pre (listLiteral value) (listLiteral value') := by
  refine .look fun t => ?_
  split
  · exact .refl _
  · exact .bind (commaSeparated_marches hvalue).steady
      (commaSeparated_agrees hvalue h) fun items => .refl _

/-- The values inside a value stand behind a bracket, so there are less tokens in front of them. -/
theorem valueStep_agrees {value value' : Nat → Parser Value}
    (hvalue : ∀ room, Marches Anywhere true False Anywhere Anything (value room))
    (h : ∀ room, AgreesBelow size Anywhere (value room) (value' room)) (room : Nat) :
    AgreesBelow (size + 1) pre (valueStep value room) (valueStep value' room) := by
  refine .look fun t => ?_
  have here (hkind : t.kind ≠ .eof) : Moves (· = t) advance := (Marches.step hkind).moves
  split
  · exact .refl _
  · exact .refl _
  · exact .refl _
  · exact .refl _
  · next hkind =>
      refine .eat (here (by simp [hkind])) fun _ => ?_
      exact messageLiteral_agrees (fun room => (hvalue room).toProgresses) h t room
  · next hkind =>
      exact .eat (here (by simp [hkind])) fun _ => listLiteral_agrees (hvalue room) (h room)
  · exact .refl _

/-- Two bounds on nesting give the same in front of less tokens than both of them, and what is done
beyond them is never done. -/
theorem valueFrom_agrees {other other' : Parser Value}
    (hother : Marches Anywhere true False Anywhere Anything other) {size n m : Nat} (hn : size ≤ n)
    (hm : size ≤ m) (room : Nat) :
    AgreesBelow size Anywhere (valueFrom other n room) (valueFrom other' m room) := by
  -- On the number of tokens: each level of nesting consumes one, so both bounds last.
  induction size generalizing n m room with
  | zero => exact fun _ hlt _ => absurd hlt (Nat.not_lt_zero _)
  | succ size ih =>
      obtain ⟨n, rfl⟩ := Nat.exists_eq_add_of_lt (Nat.lt_of_succ_le hn)
      obtain ⟨m, rfl⟩ := Nat.exists_eq_add_of_lt (Nat.lt_of_succ_le hm)
      refine valueStep_agrees (valueFrom_marches hother _) (fun room => ?_) room
      exact ih (by omega) (by omega) room

end Bounds

/-! ### Options -/

section Options

variable {seen : Token → Prop} {deep : Bool} {known : Prop} {pre : Token → Prop}

/-- The bound of an option value is greater than the number of tokens, so it makes no difference
what stands at the bottom, and a rule may be put there that consumes a token. -/
theorem optionValue_marches (room : Nat) :
    Marches seen true known pre Anything (optionValue room) where
  isSteady := by
    refine .bounded (fun n => (valueWithin_marches n room).steady) fun n c hlt => ?_
    simp only [valueWithin_eq]
    have stalled : Marches Anywhere true False Anywhere Anything (breakDown .stalled) :=
      valueWithin_marches 0 room
    exact valueFrom_agrees stalled hlt (Nat.le_refl _) room c (Nat.lt_succ_self _) True.intro
  run hknown c hc := by
    -- The bound lasts, so something that reports an error may stand in for what is done beyond it.
    let other : Parser Value := unexpected c.next .optionValue
    have reported {seen : Token → Prop} {known : Prop} :
        Marches seen true known Anywhere Anything other := .fail rfl
    have same : optionValue room c = valueFrom other (c.rest.length + 1) room c := by
      unfold optionValue
      rw [valueWithin_eq]
      exact (valueFrom_agrees reported (Nat.le_refl _) (Nat.le_refl _) room c (Nat.lt_succ_self _)
        True.intro).symm
    rw [same]
    exact (valueFrom_marches reported _ room).run hknown c hc
  consumes c a d hpre hrun := (valueWithin_marches _ room).moves c a d hpre hrun

theorem optionNamePart_marches : Marches seen deep known pre Anything optionNamePart := by
  refine accept_choice_marches _ ?_ ?_
  · refine (accept_progresses _).bind fun rooted => fullIdent_marches.bind fun name => ?_
    exact (expectSign_marches _).bind fun _ => .done _
  · exact (expectName_marches _).eat fun t => .done t.text

theorem optionNameSuffix_marches : Marches seen deep known pre Anything optionNameSuffix := by
  refine accept_choice_marches _ ?_ ?_
  · exact optionNamePart_marches.bind fun _ => .done _
  · refine (expectSign_marches _).eat fun _ => fullIdent_marches.bind fun index => ?_
    exact (expectSign_marches _).bind fun _ => .done _

theorem optionName_marches : Marches seen deep known pre Anything optionName := by
  refine optionNamePart_marches.eat fun first => ?_
  exact (many_progresses Anything fun _ _ => optionNameSuffix_marches).bind fun others => .done _

theorem optionAssignment_marches (room : Nat) :
    Marches seen true known pre Anything (optionAssignment room) := by
  refine optionName_marches.eat fun name => (expectSign_marches _).bind fun _ => ?_
  exact (optionValue_marches room).bind fun value => .done _

/-- The last sign of a statement, and the comment behind it. -/
theorem lastSign_progresses {post : α → Prop} (mode : Mode) (p : Punct) {g : List Comment → α}
    (h : known → ∀ trailing, post (g trailing)) : Progresses seen deep known post (do
      let _ ← expectSign p
      let trailing ← takeTrailing mode
      pure (g trailing)) :=
  (expectSign_marches p).andThen fun _ => (Progresses.takeTrailing mode).andThen fun trailing =>
    .pure fun hknown => h hknown trailing

theorem optionStatement_marches (mode : Mode) (room : Nat) :
    Marches seen true known pre Anything (optionStatement mode room) := by
  refine (expectKeyword_marches _).eat fun _ => (optionAssignment_marches room).bind fun o => ?_
  exact lastSign_progresses mode .semicolon fun _ _ => True.intro

/-- Options in brackets may be missing altogether. -/
theorem inlineOptions_progresses (room : Nat) :
    Progresses seen true known Anything (inlineOptions room) := by
  refine (accept_progresses _).bind fun found => ?_
  split
  · refine (commaSeparated_marches (optionAssignment_marches room)).bind fun options => ?_
    exact (expectSign_marches _).bind fun _ => .done options
  · exact .done []

end Options

/-! ### Services -/

section Services

variable {seen : Token → Prop} {deep : Bool} {known : Prop} {pre : Token → Prop} (mode : Mode)

/-- A declaration fails if the name is taken, and the report quotes the numbers of the definition.
-/
theorem declare_progresses (taken : Bool) {what : Definition} (line : Nat)
    (h : known → ∀ n ∈ (SchemaError.duplicate what line).numbers, Quotable seen n) :
    Progresses seen deep known Anything (declare mode taken what line) := by
  unfold declare
  split
  · exact .report rfl (fun hdeep => nomatch hdeep) h
  · exact .done ()

/-- A name that is declared twice is reported without a number. -/
theorem declare_named_progresses (taken : Bool) (name : String) (line : Nat) :
    Progresses seen deep known Anything (declare mode taken (.named name) line) :=
  declare_progresses mode taken line fun _ _ hn => nomatch hn

theorem declare_member_progresses (taken : Bool) (owner name : String) (line : Nat) :
    Progresses seen deep known Anything (declare mode taken (.member owner name) line) :=
  declare_progresses mode taken line fun _ _ hn => nomatch hn

theorem methodType_marches : Marches seen deep known pre Anything methodType := by
  refine (expectSign_marches _).eat fun _ => .look fun t => ?_
  refine (Marches.lookSecond fun u => ?_).toProgresses
  have rest {known : Prop} : Marches seen deep known Anywhere Anything (do
      let name ← typeName
      let _ ← expectSign .rparen
      pure (TypeRef.parse (t.kind = .keyword .streamKw && !u.isPunct .rparen) name)) :=
    typeName_marches.eat fun _ => (expectSign_marches _).bind fun _ => .done _
  simp only
  split
  · exact .after .advance fun _ => rest
  · exact rest

theorem methodItem_marches (options : List SchemaOption) (t : Token) :
    Marches seen true known (· = t) Anything (methodItem mode options t) := by
  unfold methodItem
  split
  · exact (optionStatement_marches mode maxDepth).eat fun _ => .done _
  · next hkind => exact (Marches.step (by simp [hkind])).eat fun _ => .done _
  · exact .fail rfl

theorem methodBody_progresses : Progresses seen true known Anything (methodBody mode) := by
  refine (accept_progresses _).bind fun found => ?_
  split
  · refine (Progresses.loop (fun options t _ => methodItem_marches mode options t) []).bind
      fun options => (expectSign_marches _).bind fun _ => ?_
    exact (accept_progresses _).bind fun _ => .done options
  · exact (expectKind_marches _ (by simp)).bind fun _ => .done []

/-- The name of a method is that of a token. -/
theorem method_marches :
    Marches seen true known pre (fun m => Names seen m.name) (method mode) := by
  refine .after (Progresses.takeComments mode) fun before => ?_
  refine (expectKeyword_marches _).eatThen fun _ => ?_
  refine (expectName_marches _).bind fun name => ?_
  refine methodType_marches.andThen fun input => ?_
  refine (expectKeyword_marches _).andThen fun _ => ?_
  refine methodType_marches.andThen fun output => ?_
  refine (methodBody_progresses mode).andThen fun options => ?_
  refine (Progresses.defer _ _).andThen fun _ => ?_
  exact (Progresses.takeTrailing mode).andThen fun behind => .pure And.right

theorem serviceItem_marches (s : Service) (t : Token) (hs : known → s.Named (Names seen)) :
    Marches seen true known (· = t) (Service.Named (Names seen)) (serviceItem mode s t) := by
  unfold serviceItem
  split
  · refine (method_marches mode).eat fun m => ?_
    refine (declare_member_progresses mode _ _ _ _).andThen fun _ => .pure ?_
    rintro ⟨hknown, hm⟩
    exact ⟨(hs hknown).name, forall_mem_concat_iff.mpr ⟨(hs hknown).methods, hm⟩⟩
  · refine (optionStatement_marches mode maxDepth).eatThen fun o => .pure fun hknown => ?_
    exact ⟨(hs hknown).name, (hs hknown).methods⟩
  · next hkind => exact (Marches.step (by simp [hkind])).eatThen fun _ => .pure hs
  · exact .fail rfl

/-- The names of a service and of its methods are those of tokens. -/
theorem service_marches :
    Marches seen true known pre (Service.Named (Names seen)) (service mode) := by
  refine .after (Progresses.takeComments mode) fun before => ?_
  refine (expectKeyword_marches _).eatThen fun _ => ?_
  refine (expectName_marches _).bind fun name => ?_
  refine (expectSign_marches _).andThen fun _ => ?_
  refine (Progresses.iterate (fun s t _ => serviceItem_marches mode s t And.right) ?_).bind
    fun s => lastSign_progresses mode .rbrace ?_
  · rintro ⟨-, hname⟩
    exact ⟨hname, fun m hm => nomatch hm⟩
  · rintro ⟨-, hs⟩ behind
    exact ⟨hs.name, hs.methods⟩

end Services

/-! ### Enums and reserved numbers -/

section Enums

variable {seen : Token → Prop} {deep : Bool} {known : Prop} {pre : Token → Prop} (mode : Mode)

/-- A range ends at a number that is written there, at its first number, or at the greatest one. -/
theorem rangeEnd_progresses {limit first : Int} (hlimit : known → Quotable seen limit)
    (hfirst : known → Quotable seen first) :
    Progresses seen deep known (Quotable seen) (rangeEnd limit first) := by
  refine .look fun t => ?_
  split
  · refine Progresses.advance.andThen fun _ => .look fun u => ?_
    split
    · exact Progresses.advance.andThen fun _ => .pure fun hknown => hlimit hknown.1.1
    · exact signedInteger_marches.progresses
  · exact .pure fun hknown => hfirst hknown.1

/-- Only the ends of a range are quoted. -/
theorem reservedRange_marches {limit : Int} (hlimit : known → Quotable seen limit) :
    Marches seen deep known pre Anything (reservedRange limit) := by
  refine .look fun t => ?_
  refine signedInteger_marches.eat fun first => ?_
  refine (rangeEnd_progresses (fun hknown => hlimit hknown.1.1) And.right).bind fun last => ?_
  split
  · refine .report rfl (fun hdeep => nomatch hdeep) fun hknown => ?_
    simp [SchemaError.numbers, hknown.1.2, hknown.2]
  · exact .done _

theorem reserved_marches {limit : Int} (hlimit : known → Quotable seen limit) :
    Marches seen deep known pre Anything (reserved mode limit) := by
  refine (expectKeyword_marches _).eat fun _ => .look fun t => ?_
  have close {known : Prop} (r : Reservation) : Progresses seen deep known Anything (do
      let _ ← expectSign .semicolon
      let _ ← takeTrailing mode
      pure r) :=
    lastSign_progresses mode .semicolon fun _ _ => True.intro
  split
  · exact (commaSeparated_marches stringValue_marches).bind fun names => close ⟨[], names⟩
  · refine (commaSeparated_marches (reservedRange_marches ?_)).bind fun ranges => close ⟨ranges, []⟩
    exact fun hknown => hlimit hknown.1.1

theorem enumValue_marches (room : Nat) :
    Marches seen true known pre Anything (enumValue mode room) := by
  refine .after (Progresses.takeComments mode) fun before => ?_
  refine (expectName_marches _).eat fun name => ?_
  refine (expectSign_marches _).bind fun _ => ?_
  refine signedInteger_marches.bind fun number => ?_
  refine (inlineOptions_progresses room).bind fun options => ?_
  exact lastSign_progresses mode .semicolon fun _ _ => True.intro

/-- Nothing in the body of an enum changes its name. -/
theorem enumItem_marches (room : Nat) (e : Enumeration) (t : Token)
    (he : known → Names seen e.name) :
    Marches seen true known (· = t) (fun e => Names seen e.name) (enumItem mode room e t) := by
  unfold enumItem
  split
  · exact (optionStatement_marches mode room).eatThen fun _ => .pure he
  · exact (reserved_marches mode fun _ => quotable_of_short (by decide)).eatThen fun _ => .pure he
  · next hkind => exact (Marches.step (by simp [hkind])).eatThen fun _ => .pure he
  · exact .fail rfl
  · refine (enumValue_marches mode room).eatThen fun v => ?_
    exact (declare_member_progresses mode _ _ _ _).andThen fun _ => .pure he

/-- The name of an enum is that of a token. -/
theorem enumeration_marches (room : Nat) :
    Marches seen true known pre (fun e => Names seen e.name) (enumeration mode room) := by
  refine .after (Progresses.takeComments mode) fun before => ?_
  refine (expectKeyword_marches _).eatThen fun _ => ?_
  refine (expectName_marches _).bind fun name => ?_
  refine (expectSign_marches _).andThen fun _ => ?_
  refine (Progresses.iterate (fun e t _ => enumItem_marches mode room e t And.right) ?_).bind
    fun e => lastSign_progresses mode .rbrace fun hknown _ => hknown.2
  exact And.right

end Enums

/-! ### Messages -/

section Messages

variable {seen : Token → Prop} {deep : Bool} {known : Prop} {pre : Token → Prop} (mode : Mode)

theorem plainType_marches : Marches seen deep known pre Anything plainType :=
  typeName_marches.eat fun _ => .done _

theorem mapType_marches : Marches seen deep known pre Anything mapType := by
  refine (expectKeyword_marches _).eat fun _ => ?_
  refine (expectSign_marches _).bind fun _ => .look fun t => ?_
  refine plainType_marches.bind fun key => ?_
  split
  · split
    · refine (expectSign_marches _).bind fun _ => plainType_marches.bind fun value => ?_
      exact (expectSign_marches _).bind fun _ => .done _
    · exact .fail rfl
  · exact .fail rfl

theorem fieldType_marches (label : Label) :
    Marches seen deep known pre Anything (fieldType label) := by
  refine .look fun t => (Marches.lookSecond fun u => ?_).anywhere
  split
  · exact .fail rfl
  · split
    · split
      · exact mapType_marches
      · exact .fail rfl
    · exact plainType_marches.map

/-- The number of a field is that of a token, in strict mode and else. -/
theorem fieldNumber_marches :
    Marches seen deep known pre (fun n : Nat => Quotable seen n) (fieldNumber mode) := by
  refine (expectKind_marches _ (by simp)).eat fun t => ?_
  split
  · exact .fail rfl
  · next n hinteger =>
      have quotable (h : seen t ∧ t.kind = .number) : Quotable seen n :=
        .inr ⟨t, h.1, h.2, hinteger⟩
      split
      · refine .report rfl (fun hdeep => nomatch hdeep) fun hknown => ?_
        simpa [SchemaError.numbers] using quotable hknown.2
      · exact .pure fun hknown => quotable hknown.2

theorem fieldLabel_progresses (inOneof : Bool) :
    Progresses seen deep known Anything (fieldLabel inOneof) := by
  refine .look fun t => ?_
  split
  · exact .done _
  · split
    · exact .fail rfl
    · exact Progresses.advance.bind fun _ => .done _

/-- A field consumes its type at least, and its number can be quoted. -/
theorem field_marches (room : Nat) (oneof : Option String) :
    Marches seen true known pre (fun f => Quotable seen f.number) (field mode room oneof) := by
  refine .after (Progresses.takeComments mode) fun before => ?_
  refine .after (fieldLabel_progresses _) fun label => ?_
  refine (fieldType_marches label).eatThen fun type => ?_
  refine (expectName_marches _).andThen fun name => ?_
  refine (expectSign_marches _).andThen fun _ => ?_
  refine (fieldNumber_marches mode).bind fun number => ?_
  refine (inlineOptions_progresses room).andThen fun options => ?_
  exact lastSign_progresses mode .semicolon fun hknown _ => hknown.2

/-- Fields whose numbers are those of tokens. -/
def AllQuotable (seen : Token → Prop) (fields : List Field) : Prop :=
  ∀ f ∈ fields, Quotable seen f.number

theorem AllQuotable.concat {fields : List Field} {f : Field} (hfields : AllQuotable seen fields)
    (hf : Quotable seen f.number) : AllQuotable seen (fields ++ [f]) :=
  forall_mem_concat_iff.mpr ⟨hfields, hf⟩

theorem oneofItem_marches (room : Nat) (o : Oneof) (t : Token)
    (ho : known → AllQuotable seen o.fields) :
    Marches seen true known (· = t) (fun o => AllQuotable seen o.fields)
      (oneofItem mode room o t) := by
  unfold oneofItem
  split
  · exact (optionStatement_marches mode room).eatThen fun _ => .pure ho
  · next hkind => exact (Marches.step (by simp [hkind])).eatThen fun _ => .pure ho
  · exact .fail rfl
  · exact (field_marches mode room _).eat fun f =>
      .pure fun hknown => (ho hknown.1).concat hknown.2

/-- The numbers of the members of a oneof can be quoted. -/
theorem oneofGroup_marches (room : Nat) :
    Marches seen true known pre (fun o => AllQuotable seen o.fields) (oneofGroup mode room) := by
  refine .after (Progresses.takeComments mode) fun before => ?_
  refine (expectKeyword_marches _).eatThen fun _ => ?_
  refine (expectName_marches _).andThen fun name => ?_
  refine (expectSign_marches _).andThen fun _ => ?_
  refine (Progresses.iterate (fun o t _ => oneofItem_marches mode room o t And.right) ?_).bind
    fun o => lastSign_progresses mode .rbrace fun hknown _ => hknown.2
  exact fun _ f hf => nomatch hf

/-- A draft whose names and field numbers are those of tokens. -/
structure Draft.Traced (seen : Token → Prop) (d : Draft) : Prop where
  named : d.message.Named (Names seen)
  quotable : AllQuotable seen d.message.fields

namespace Draft.Traced

variable {d : Draft}

/-- What touches neither the name nor the types and fields keeps what is known of a draft. -/
theorem congr {d' : Draft} (h : d.Traced seen) (hname : d'.message.name = d.message.name)
    (henums : d'.message.enums = d.message.enums)
    (hnested : d'.message.messages = d.message.messages)
    (hfields : d'.message.fields = d.message.fields) : d'.Traced seen := by
  obtain ⟨⟨name, enums, nested⟩, quotable⟩ := h
  exact ⟨⟨hname ▸ name, henums ▸ enums, hnested ▸ nested⟩, hfields ▸ quotable⟩

/-- What is known of a draft is about its message only. -/
theorem of_message {d' : Draft} (h : d.Traced seen) (heq : d'.message = d.message) :
    d'.Traced seen := by
  obtain ⟨named, quotable⟩ := h
  exact ⟨heq ▸ named, heq ▸ quotable⟩

theorem withMessage (h : d.Traced seen) {m : Message} (hm : m.Named (Names seen)) :
    Draft.Traced seen
      { d with message := { d.message with messages := d.message.messages ++ [m] } } := by
  obtain ⟨⟨name, enums, nested⟩, quotable⟩ := h
  exact ⟨⟨name, enums, forall_mem_concat_iff.mpr ⟨nested, hm⟩⟩, quotable⟩

theorem withEnum (h : d.Traced seen) {e : Enumeration} (he : Names seen e.name) :
    Draft.Traced seen { d with message := { d.message with enums := d.message.enums ++ [e] } } := by
  obtain ⟨⟨name, enums, nested⟩, quotable⟩ := h
  exact ⟨⟨name, forall_mem_concat_iff.mpr ⟨enums, he⟩, nested⟩, quotable⟩

theorem withFields (h : d.Traced seen) {fields : List Field} (hfields : AllQuotable seen fields) :
    Draft.Traced seen
      { d with message := { d.message with fields := d.message.fields ++ fields } } := by
  obtain ⟨⟨name, enums, nested⟩, quotable⟩ := h
  exact ⟨⟨name, enums, nested⟩, List.forall_mem_append.mpr ⟨quotable, hfields⟩⟩

end Draft.Traced

/-- Declaring a name leaves the message as it is. -/
theorem declareName_progresses (line : Nat) (d : Draft) (name : String) :
    Progresses seen deep known (fun d' => d'.message = d.message)
      (d.declareName mode line name) :=
  (declare_named_progresses mode _ _ _).andThen fun _ => .pure fun _ => rfl

/-- Declaring a field puts it behind those the message has. -/
theorem declareField_progresses (line : Nat) (d : Draft) (f : Field)
    (hf : known → Quotable seen f.number) :
    Progresses seen deep known
      (fun d' => d'.message = { d.message with fields := d.message.fields ++ [f] })
      (d.declareField mode line f) := by
  refine (declareName_progresses mode line d f.name).bind fun d' => ?_
  refine (declare_progresses mode _ _ fun hknown => ?_).andThen fun _ => .pure fun hknown => ?_
  · simpa [SchemaError.numbers] using hf hknown.1
  · rw [hknown.2]

/-- Fields are declared one after the other, and the draft has them behind those it had. -/
theorem declareFields_progresses (line : Nat) (d : Draft) (fields : List Field)
    (hfields : known → AllQuotable seen fields) :
    Progresses seen deep known
      (fun d' => d'.message = { d.message with fields := d.message.fields ++ fields })
      (fields.foldlM (Draft.declareField mode line) d) := by
  induction fields generalizing d known with
  | nil =>
      obtain ⟨message, declared⟩ := d
      cases message
      exact .pure fun _ => by simp
  | cons f fields ih =>
      rw [List.foldlM_cons]
      refine (declareField_progresses mode line d f ?_).bind fun d' => ?_
      · exact fun hknown => hfields hknown f List.mem_cons_self
      · refine (ih d' fun hknown g hg => ?_).weaken ?_
        · exact hfields hknown.1 g (List.mem_cons_of_mem f hg)
        · rintro ⟨-, hfirst⟩ d'' hothers
          rw [hothers, hfirst, List.append_assoc, List.singleton_append]

/-- Of the fields with a reserved name or number, only the number of one may be quoted. -/
theorem checkReserved_progresses (d : Draft) (hd : known → AllQuotable seen d.message.fields) :
    Progresses seen deep known Anything (checkReserved mode d) := by
  unfold checkReserved
  split
  · split
    · next e herror =>
        obtain ⟨f, hf, hfound⟩ := List.exists_of_findSome?_eq_some herror
        simp only at hfound
        split at hfound
        · cases hfound
          exact .fail rfl
        · split at hfound
          · cases hfound
            refine .report rfl (fun hdeep => nomatch hdeep) fun hknown => ?_
            simpa [SchemaError.numbers] using hd hknown f hf
          · cases hfound
    · exact .done ()
  · exact .done ()

/-- One step in the body of a message keeps what is known of the draft. -/
theorem messageItem_marches (room : Nat) {nested : Parser Message}
    (hnested : Marches seen true known Anywhere (Message.Named (Names seen)) nested) (d : Draft)
    (t : Token) (hd : known → d.Traced seen) :
    Marches seen true known (· = t) (Draft.Traced seen) (messageItem mode room nested d t) := by
  have declared (name : String) {known' : Prop} (h : known' → known) :
      Progresses seen true known' (Draft.Traced seen) (d.declareName mode t.pos.line name) :=
    (declareName_progresses mode t.pos.line d name).weaken fun hknown _ heq =>
      (hd (h hknown)).of_message heq
  unfold messageItem
  simp only
  split
  · refine hnested.anywhere.eat fun m => (declared m.name And.left).bind fun d' => .pure ?_
    exact fun hknown => hknown.2.withMessage hknown.1.2
  · refine (enumeration_marches mode room).eat fun e => ?_
    refine (declared e.name And.left).bind fun d' => .pure ?_
    exact fun hknown => hknown.2.withEnum hknown.1.2
  · refine (optionStatement_marches mode room).eatThen fun _ => .pure fun hknown => ?_
    exact (hd hknown).congr rfl rfl rfl rfl
  · refine (oneofGroup_marches mode room).eat fun o => ?_
    refine (declared o.name And.left).bind fun d' => ?_
    refine (declareFields_progresses mode _ d' o.fields fun hknown => hknown.1.2).bind fun d'' => ?_
    refine .pure fun ⟨⟨⟨_, ho⟩, hd'⟩, heq⟩ => ?_
    exact ((hd'.withFields ho).of_message heq).congr rfl rfl rfl rfl
  · refine (reserved_marches mode fun _ => quotable_of_short (by decide)).eatThen fun _ => .pure ?_
    exact fun hknown => (hd hknown).congr rfl rfl rfl rfl
  · exact .fail rfl
  · exact .fail rfl
  · next hkind => exact (Marches.step (by simp [hkind])).eatThen fun _ => .pure hd
  · exact .fail rfl
  · refine (field_marches mode room none).eat fun f => ?_
    refine (declareField_progresses mode _ d f And.right).weaken fun hknown d' heq => ?_
    have hf : AllQuotable seen [f] := fun g hg => List.mem_singleton.mp hg ▸ hknown.2
    exact ((hd hknown.1).withFields hf).of_message heq

/-- The body of a message is read step by step, and checked against its reserved statements at the
end. -/
theorem messageBlock_progresses (room : Nat) {nested : Parser Message}
    (hnested : Marches seen true known Anywhere (Message.Named (Names seen)) nested)
    {name : String} (hname : known → Names seen name) (before : List Comment) :
    Progresses seen true known (Message.Named (Names seen))
      (messageBlock mode room nested name before) := by
  refine (expectSign_marches _).andThen fun _ => ?_
  refine (Progresses.iterate (fun d t _ =>
    messageItem_marches mode room (hnested.given And.left) d t And.right) ?_).bind fun d => ?_
  · exact fun hknown =>
      ⟨⟨hname hknown, fun _ => (nomatch ·), fun _ => (nomatch ·)⟩, fun _ => (nomatch ·)⟩
  · refine (checkReserved_progresses mode d fun hknown => hknown.2.quotable).andThen fun _ => ?_
    refine lastSign_progresses mode .rbrace ?_
    rintro ⟨-, ⟨name, enums, nested⟩, -⟩ behind
    exact ⟨name, enums, nested⟩

/-- A message in a message may be one too many. -/
theorem message_marches (room : Nat) :
    Marches seen true known pre (Message.Named (Names seen)) (message mode room) := by
  induction room generalizing known pre with
  | zero =>
      refine .after (Progresses.takeComments mode) fun _ => ?_
      refine (expectKeyword_marches _).eatThen fun _ => ?_
      exact (expectName_marches _).bind fun name =>
        .report rfl (fun _ => rfl) fun _ _ hn => nomatch hn
  | succ room ih =>
      refine .after (Progresses.takeComments mode) fun before => ?_
      refine (expectKeyword_marches _).eatThen fun _ => ?_
      exact (expectName_marches _).bind fun name =>
        messageBlock_progresses mode room ih And.right before

end Messages

/-! ### Files -/

section Files

variable {seen : Token → Prop} {deep : Bool} {known : Prop} {pre : Token → Prop} (mode : Mode)

theorem version_marches : Marches seen deep known pre Anything (version mode) := by
  refine (expectKeyword_marches _).eat fun _ => ?_
  refine (expectSign_marches _).bind fun _ => ?_
  refine (expectKind_marches _ (by simp)).bind fun t => ?_
  split
  · exact .fail rfl
  · exact lastSign_progresses mode .semicolon fun _ _ => True.intro

theorem package_marches : Marches seen deep known pre (IsJoined (Names seen)) (package mode) := by
  refine (expectKeyword_marches _).eat fun _ => fullIdent_marches.bind fun name => ?_
  exact lastSign_progresses mode .semicolon fun hknown _ => hknown.2

theorem importKind_progresses : Progresses seen deep known Anything importKind := by
  refine .look fun t => ?_
  split
  · exact Progresses.advance.bind fun _ => .done _
  split
  · exact Progresses.advance.bind fun _ => .done _
  · exact .done _

theorem importStatement_marches :
    Marches seen deep known pre Anything (importStatement mode) := by
  refine (expectKeyword_marches _).eat fun _ => importKind_progresses.bind fun kind => ?_
  refine stringValue_marches.bind fun path => ?_
  exact lastSign_progresses mode .semicolon fun _ _ => True.intro

/-- Each statement of the header consumes the token that it starts with. -/
theorem headerItem_marches (f : SchemaFile) (t : Token) (hstart : isHeaderStart t = true)
    (hf : known → f.Named (Names seen)) :
    Marches seen true known (· = t) (SchemaFile.Named (Names seen)) (headerItem mode f t) := by
  unfold headerItem
  split
  · split
    · exact .fail rfl
    · refine (package_marches mode).eat fun name => .pure fun hknown => ?_
      refine ⟨?_, (hf hknown.1).services, (hf hknown.1).messages, (hf hknown.1).enums⟩
      rintro _ ⟨⟩
      exact hknown.2
  · refine (importStatement_marches mode).eatThen fun _ => .pure fun hknown => ?_
    exact ⟨(hf hknown).package, (hf hknown).services, (hf hknown).messages, (hf hknown).enums⟩
  · refine (optionStatement_marches mode maxDepth).eatThen fun _ => .pure fun hknown => ?_
    exact ⟨(hf hknown).package, (hf hknown).services, (hf hknown).messages, (hf hknown).enums⟩
  · have hkind : t.kind ≠ .eof := by
      intro heq
      simp [isHeaderStart, heq] at hstart
    exact (Marches.step hkind).eatThen fun _ => .pure hf

theorem header_progresses :
    Progresses seen true known (SchemaFile.Named (Names seen)) (header mode) := by
  have items {known : Prop} (v : Version) :
      Progresses seen true known (SchemaFile.Named (Names seen))
        (iterate isHeaderStart (headerItem mode) { SchemaFile.empty with version := v }) := by
    refine .iterate (fun f t hstart => headerItem_marches mode f t hstart And.right) fun _ => ?_
    exact ⟨fun _ => (nomatch ·), fun _ => (nomatch ·), fun _ => (nomatch ·), fun _ => (nomatch ·)⟩
  refine .look fun t => ?_
  split
  · exact (version_marches mode).bind fun v => items v
  · exact items .proto3

/-- Each definition consumes a token or fails. -/
theorem definition_marches (f : SchemaFile) (t : Token) (hf : known → f.Named (Names seen)) :
    Marches seen true known (· = t) (SchemaFile.Named (Names seen)) (definition mode f t) := by
  unfold definition
  simp only
  split
  · refine (service_marches mode).eat fun s => ?_
    refine (declare_named_progresses mode _ _ _).andThen fun _ => .pure ?_
    rintro ⟨hknown, hs⟩
    obtain ⟨package, services, messages, enums⟩ := hf hknown
    exact ⟨package, forall_mem_concat_iff.mpr ⟨services, hs⟩, messages, enums⟩
  · refine (message_marches mode maxDepth).eat fun m => ?_
    refine (declare_named_progresses mode _ _ _).andThen fun _ => .pure ?_
    rintro ⟨hknown, hm⟩
    obtain ⟨package, services, messages, enums⟩ := hf hknown
    exact ⟨package, services, forall_mem_concat_iff.mpr ⟨messages, hm⟩, enums⟩
  · refine (enumeration_marches mode maxDepth).eat fun e => ?_
    refine (declare_named_progresses mode _ _ _).andThen fun _ => .pure ?_
    rintro ⟨hknown, he⟩
    obtain ⟨package, services, messages, enums⟩ := hf hknown
    exact ⟨package, services, messages, forall_mem_concat_iff.mpr ⟨enums, he⟩⟩
  · next hkind => exact (Marches.step (by simp [hkind])).eatThen fun _ => .pure hf
  · exact .fail rfl
  · exact .fail rfl

/-- What is known of the rules, for whole files: reading one is steady, a failure has a reason, and
the names of the tree are those of tokens. -/
theorem file_progresses :
    Progresses seen true known (SchemaFile.Named (Names seen)) (file mode) :=
  (header_progresses mode).bind fun _ =>
    .iterate (fun f t _ => definition_marches mode f t And.right) And.right

/-- The tokens in front of which reading starts are those of the stream. -/
theorem Cursor.ofStream_sees (stream : TokenStream) :
    (Cursor.ofStream stream).Sees (· ∈ stream.tokens) := by
  intro t ht
  have htokens : (Cursor.ofStream stream).tokens = stream.tokens.filter (·.kind ≠ .comment) :=
    attach_tokens stream.tokens
  rw [htokens] at ht
  exact (List.mem_filter.mp ht).1

/-- A stream that was read has the names of its tokens. -/
theorem readTokens_named {stream : TokenStream} {f : SchemaFile}
    (h : (readTokens mode stream).outcome = .ok f) : f.Named (Names (· ∈ stream.tokens)) := by
  obtain ⟨c, hfile⟩ := readTokens_ok h
  exact (file_progresses mode).post_of_ok (Cursor.ofStream_sees stream) hfile

/-- A stream that was not read has a token that is to blame. -/
theorem readTokens_blamed {stream : TokenStream} {e : Failure}
    (h : (readTokens mode stream).outcome = .error e) : Blamed (· ∈ stream.tokens) true e := by
  obtain ⟨c, hfile⟩ := readTokens_error h
  exact (file_progresses mode).blamed_of_error (Cursor.ofStream_sees stream) hfile

end Files

end ProtoRoutes.Grammar
