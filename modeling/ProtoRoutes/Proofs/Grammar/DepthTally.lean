import ProtoRoutes.Proofs.Grammar.DepthLog
import ProtoRoutes.Proofs.Grammar.Rules

/-!
# ProtoRoutes.Proofs.Grammar.DepthTally

**The depth counter counts the levels that are open, and reads what the room reads.**

`Tallies log post before after p q` compares a rule `p` that keeps the counter with a rule `q` that
does not, for places inside `before` levels, where this is the counter. The two come to the same.

* If they succeed, the counter is `after`. In every mark on the way it is the number of the
  enclosing levels, which is within the limit.
* If they fail, this is so as well, except that a run which stops because of the depth ends with the
  opening of the first level beyond the limit (`Halts`).
* A rule only adds marks, so a log that holds all marks of a run holds those of every part of it. If
  `log` holds all marks of a run that succeeds, its result has `post`, which may ask for marks.

A rule that reads something whole is inside the same levels before and after, and it is compared
with the rule that has the room which these levels leave. There is one lemma for each rule that
keeps the counter; of the others it is known from `Rules` that they do not fail because of the
depth.
-/

namespace ProtoRoutes.Grammar

variable {α β σ : Type} {log : List Mark}

/-! ### Places inside levels -/

/-- Blocks of which `d` are levels, within the limit. -/
structure Inside (d : Nat) (blocks : List Block) : Prop where
  levels : levels blocks = d
  limit : d ≤ maxDepth

namespace Inside

variable {d : Nat} {blocks : List Block}

theorem outside : Inside 0 [] :=
  ⟨rfl, Nat.zero_le _⟩

/-- A block that is no level. -/
theorem block {b : Block} (h : Inside d blocks) (hb : b.counts = false) : Inside d (b :: blocks) :=
  ⟨(levels_cons_of_not hb blocks).trans h.levels, h.limit⟩

/-- A block that is one. -/
theorem level {b : Block} (h : Inside d blocks) (hb : b.counts = true) (hlt : d < maxDepth) :
    Inside (d + 1) (b :: blocks) :=
  ⟨by rw [levels_cons hb, h.levels], hlt⟩

end Inside

/-! ### Comparing runs -/

/-- A mark where the counter is the number of enclosing levels, which is within the limit. -/
structure Mark.Exact (k : Mark) : Prop where
  depth : k.depth = levels k.blocks
  limit : levels k.blocks ≤ maxDepth

/-- A mark that is made inside some levels is exact. -/
theorem Inside.exact {d : Nat} {blocks : List Block} (h : Inside d blocks) (moment : Moment) :
    Mark.Exact ⟨moment, blocks, d⟩ := by
  refine ⟨?_, ?_⟩ <;> simp only [h.levels]
  exact h.limit

/-- How the marks of a run look that fails: all of them are exact and the depth is not the reason,
or the last one opens the level that is one too many, and this is what is reported. -/
inductive Halts : Failure → List Mark → Prop where
  | elsewhere {e : Failure} {marks : List Mark} (he : e.isTooDeep = false)
      (hmarks : ∀ k ∈ marks, k.Exact) : Halts e marks
  | tooDeep {t : Token} {blocks : List Block} {marks : List Mark}
      (hlevels : levels blocks = maxDepth + 1) (hmarks : ∀ k ∈ marks, k.Exact) :
      Halts (.error (.defect t.pos (.tooDeep maxDepth)))
        (marks ++ [⟨.opens t, blocks, levels blocks⟩])

/-- Exact marks in front of those of a failed run are as good as its own. -/
theorem Halts.behind {e : Failure} {front marks : List Mark} (hfront : ∀ k ∈ front, k.Exact)
    (h : Halts e marks) : Halts e (front ++ marks) := by
  cases h with
  | elsewhere he hmarks => exact .elsewhere he (List.forall_mem_append.mpr ⟨hfront, hmarks⟩)
  | tooDeep hlevels hmarks =>
      rw [← List.append_assoc]
      exact .tooDeep hlevels (List.forall_mem_append.mpr ⟨hfront, hmarks⟩)

/-- Two runs that come to the same, where the second one adds marks to those in front and keeps the
counter. If they succeed, it is `depth`, and the result is logged. -/
inductive Follows (log : List Mark) (post : α → Prop) (front : List Mark) (depth : Int) :
    EStateM.Result Failure Cursor α → EStateM.Result Failure Meter α → Prop where
  | ok {a : α} {c : Cursor} {marks : List Mark} (hmarks : ∀ k ∈ marks, k.Exact)
      (hlog : front ++ marks ⊆ log → post a) :
      Follows log post front depth (.ok a c) (.ok a ⟨c, depth, front ++ marks⟩)
  | error {e : Failure} {c : Cursor} {last : Int} {marks : List Mark} (halts : Halts e marks) :
      Follows log post front depth (.error e c) (.error e ⟨c, last, front ++ marks⟩)

namespace Follows

variable {post : α → Prop} {front marks : List Mark} {depth : Int}

/-- A run that succeeds without a mark. -/
theorem unmarked {a : α} (ha : post a) (c : Cursor) :
    Follows log post front depth (.ok a c) (.ok a ⟨c, depth, front⟩) := by
  have ends : Follows log post front depth (.ok a c) (.ok a ⟨c, depth, front ++ []⟩) :=
    .ok (by simp) fun _ => ha
  rwa [List.append_nil] at ends

/-- A run that fails without a mark, and not because of the depth. -/
theorem failed {e : Failure} (he : e.isTooDeep = false) (c : Cursor) (last : Int) :
    Follows log post front depth (.error e c) (.error e ⟨c, last, front⟩) := by
  have ends : Follows log post front depth (.error e c) (.error e ⟨c, last, front ++ []⟩) :=
    .error (.elsewhere he (by simp))
  rwa [List.append_nil] at ends

/-- Exact marks in front of a run are exact marks of the run, and what they show may be used. -/
theorem behind {shown : Prop} {r : EStateM.Result Failure Cursor α}
    {s : EStateM.Result Failure Meter α} (hmarks : ∀ k ∈ marks, k.Exact)
    (hshown : front ++ marks ⊆ log → shown)
    (h : Follows log (fun a => shown → post a) (front ++ marks) depth r s) :
    Follows log post front depth r s := by
  cases h with
  | ok hothers hlog =>
      rw [List.append_assoc]
      refine .ok (List.forall_mem_append.mpr ⟨hmarks, hothers⟩) fun hall => ?_
      rw [← List.append_assoc] at hall
      exact hlog hall (hshown fun k hk => hall (List.mem_append_left _ hk))
  | error halts =>
      rw [List.append_assoc]
      exact .error (halts.behind hmarks)

end Follows

/-- Started inside `before` levels with these on the counter, `p` comes to what `q` comes to, its
marks are exact, and it ends with `after` levels on the counter. Where `log` holds its marks, its
result has `post`. -/
structure Tallies (log : List Mark) (post : α → Prop) (before after : Nat) (p : Counted α)
    (q : Parser α) : Prop where
  run : ∀ m : Meter, m.depth = before → Follows log post m.marks after (q m.cursor) (p m)

namespace Tallies

variable {x y z : Nat} {mid : α → Prop} {post : β → Prop}

theorem pure {b : β} (h : post b) : Tallies log post x x (Pure.pure b) (Pure.pure b) := by
  constructor
  rintro ⟨c, depth, marks⟩ rfl
  exact .unmarked h c

/-- A rule of which it is known that it does not fail because of the depth. -/
theorem plain {q : Parser β} (hq : Progresses Anywhere false True post q) :
    Tallies log post x x (Counted.plain q) q := by
  constructor
  rintro ⟨c, depth, marks⟩ rfl
  have all : c.Sees Anywhere := fun _ _ => True.intro
  unfold Counted.plain
  simp only
  cases hrun : q c with
  | ok a d => exact .unmarked (hq.post_of_ok all hrun) d
  | error e d => exact .failed (hq.blamed_of_error all hrun).isTooDeep d _

/-- Where a bound is used up, both rules break down. -/
theorem stalled : Tallies log post x x (Counted.plain (breakDown .stalled))
    (breakDown .stalled) := by
  constructor
  rintro ⟨c, depth, marks⟩ rfl
  exact .failed rfl c _

theorem weaken {post' : β → Prop} {p : Counted β} {q : Parser β} (h : Tallies log post x y p q)
    (himp : ∀ b, post b → post' b) : Tallies log post' x y p q := by
  constructor
  intro m hm
  have ends := h.run m hm
  generalize q m.cursor = r, p m = s at ends
  cases ends with
  | ok hmarks hlog => exact .ok hmarks fun hall => himp _ (hlog hall)
  | error halts => exact .error halts

/-- What the first part shows may be used of the result of the second one, since the marks of the
first part are still there when the second one has ended. -/
theorem bind {p : Counted α} {q : Parser α} {f : α → Counted β} {g : α → Parser β}
    (hp : Tallies log mid x y p q)
    (hf : ∀ a, Tallies log (fun b => mid a → post b) y z (f a) (g a)) :
    Tallies log post x z (p >>= f) (q >>= g) := by
  constructor
  intro m hm
  rw [bind_run, Counted.bind_run]
  have first := hp.run m hm
  generalize q m.cursor = r, p m = s at first
  cases first with
  | error halts => exact .error halts
  | @ok a c marks hmarks hlog =>
      exact .behind hmarks hlog ((hf a).run ⟨c, y, m.marks ++ marks⟩ rfl)

/-- What the first part shows is not asked for. -/
theorem andThen {p : Counted α} {q : Parser α} {f : α → Counted β} {g : α → Parser β}
    (hp : Tallies log mid x y p q) (hf : ∀ a, Tallies log post y z (f a) (g a)) :
    Tallies log post x z (p >>= f) (q >>= g) :=
  hp.bind fun a => (hf a).weaken fun _ hb _ => hb

/-- A rule that does not touch the counter, and what follows it. -/
theorem skip {q : Parser α} {f : α → Counted β} {g : α → Parser β}
    (hq : Progresses Anywhere false True mid q) (hf : ∀ a, Tallies log post x y (f a) (g a)) :
    Tallies log post x y (Counted.plain q >>= f) (q >>= g) :=
  (plain hq).andThen hf

/-- Looking at a token touches neither the counter nor the marks. -/
theorem look {f : Token → Counted β} {g : Token → Parser β}
    (h : ∀ t, Tallies log post x y (f t) (g t)) :
    Tallies log post x y (Counted.plain peek >>= f) (peek >>= g) :=
  ⟨fun m hm => (h m.cursor.next).run m hm⟩

theorem ite {P : Prop} [Decidable P] {p p' : Counted β} {q q' : Parser β}
    (h : Tallies log post x y p q) (h' : Tallies log post x y p' q') :
    Tallies log post x y (if P then p else p') (if P then q else q') := by
  by_cases hP : P
  · rw [if_pos hP, if_pos hP]
    exact h
  · rw [if_neg hP, if_neg hP]
    exact h'

theorem map {h : α → β} {q : Parser α} (hq : Progresses Anywhere false True mid q)
    (hpost : ∀ a, post (h a)) : Tallies log post x x (h <$> Counted.plain q) (h <$> q) := by
  rw [map_eq_bind, ← bind_pure_comp]
  exact skip hq fun a => pure (hpost a)

/-! Marks. -/

/-- A mark is exact and in the log. -/
theorem record {blocks : List Block} (moment : Moment) (hx : Inside x blocks) :
    Tallies log (fun _ => ∃ k ∈ log, k.moment = moment ∧ levels k.blocks = x) x x
      (Counted.record moment blocks) (Pure.pure ()) := by
  constructor
  rintro ⟨c, depth, marks⟩ rfl
  refine .ok (List.forall_mem_singleton.mpr (hx.exact moment)) fun hall => ?_
  exact ⟨_, hall (List.mem_append_right _ (List.mem_singleton_self _)), rfl, hx.levels⟩

/-- Something that is read whole is logged where it begins and ends. -/
theorem item {what : Item} {blocks : List Block} {p : Counted β} {q : Parser β}
    (hx : Inside x blocks) (hp : Tallies log post x x p q) :
    Tallies log (fun b => Spans log what x ∧ post b) x x (Counted.item what blocks p) q := by
  have steps : Tallies log (fun b => Spans log what x ∧ post b) x x (Counted.item what blocks p)
      (Pure.pure () >>= fun _ => q >>= fun b => Pure.pure () >>= fun _ => Pure.pure b) := by
    refine (record (.begins what) hx).bind fun _ => hp.bind fun b => ?_
    refine (record (.ends what) hx).bind fun _ => .pure fun hends hpost hbegins => ?_
    exact ⟨⟨hbegins, hends⟩, hpost⟩
  simpa only [pure_bind, bind_pure] using steps

/-- Opening a level raises the counter and is logged, or it is one level too many. -/
theorem enter {b : Block} {blocks : List Block} {t : Token} {f : Unit → Counted β} {g : Parser β}
    (hb : b.counts = true) (hx : Inside x blocks)
    (h : x < maxDepth → Tallies log (fun a => Opened log (x + 1) → post a) (x + 1) y (f ()) g) :
    Tallies log post x y (Counted.enter (b :: blocks) t >>= f)
      (if x < maxDepth then g else fail (.defect t.pos (.tooDeep maxDepth))) := by
  constructor
  rintro ⟨c, depth, marks⟩ rfl
  have hlevels : levels (b :: blocks) = x + 1 := by rw [levels_cons hb, hx.levels]
  have raised : (x : Int) + 1 = (x + 1 : Nat) := rfl
  rw [Counted.bind_run]
  unfold Counted.enter
  simp only [raised]
  by_cases hlt : x < maxDepth
  · rw [if_pos hlt, if_neg (by omega)]
    have hopen := hx.level hb hlt
    refine .behind (List.forall_mem_singleton.mpr (hopen.exact (.opens t))) (fun hall => ?_)
      ((h hlt).run ⟨c, (x + 1 : Nat), marks ++ [⟨.opens t, b :: blocks, (x + 1 : Nat)⟩]⟩ rfl)
    exact ⟨_, hall (List.mem_append_right _ (List.mem_singleton_self _)), ⟨t, rfl⟩, hlevels⟩
  · have hlimit := hx.limit
    rw [if_neg hlt, if_pos (by omega), ← hlevels]
    exact .error (@Halts.tooDeep t (b :: blocks) [] (by omega) (by simp))

/-- Closing a level lowers the counter. -/
theorem leave {f : Unit → Counted β} {g : Parser β} (h : Tallies log post x y (f ()) g) :
    Tallies log post (x + 1) y (Counted.leave >>= f) g := by
  constructor
  rintro ⟨c, depth, marks⟩ rfl
  have lowered : ((x + 1 : Nat) : Int) - 1 = x := by omega
  have ends := h.run ⟨c, x, marks⟩ rfl
  rw [Counted.bind_run]
  unfold Counted.leave
  simp only [lowered]
  exact ends

/-! Loops. -/

/-- One step keeps the counter and the invariant, so any number of steps does. -/
theorem iterateFor {inv : σ → Prop} {more : Token → Bool} {step' : σ → Token → Counted σ}
    {step : σ → Token → Parser σ}
    (h : ∀ s t, Tallies log (fun s' => inv s → inv s') x x (step' s t) (step s t)) (n : Nat)
    (s : σ) :
    Tallies log (fun s' => inv s → inv s') x x (Counted.iterateFor more step' n s)
      (Grammar.iterateFor more step n s) := by
  induction n generalizing s with
  | zero => exact stalled
  | succ n ih =>
      refine look fun t => .ite ?_ (.pure id)
      exact (h s t).bind fun s' => (ih s').weaken fun _ hlater hfirst hs => hlater (hfirst hs)

/-- A loop keeps the counter and an invariant if every step does. -/
theorem iterate {inv : σ → Prop} {more : Token → Bool} {step' : σ → Token → Counted σ}
    {step : σ → Token → Parser σ}
    (h : ∀ s t, Tallies log (fun s' => inv s → inv s') x x (step' s t) (step s t)) (s : σ) :
    Tallies log (fun s' => inv s → inv s') x x (Counted.iterate more step' s)
      (Grammar.iterate more step s) :=
  ⟨fun m hm => (iterateFor h (m.cursor.rest.length + 1) s).run m hm⟩

theorem untilBrace (inv : σ → Prop) {step' : σ → Token → Counted σ} {step : σ → Token → Parser σ}
    (h : ∀ s t, Tallies log (fun s' => inv s → inv s') x x (step' s t) (step s t)) {s : σ}
    (hs : inv s) : Tallies log inv x x (Counted.untilBrace step' s) (Grammar.untilBrace step s) :=
  (iterate h s).weaken fun _ hkeeps => hkeeps hs

/-- Items with commas between them have what each of them has. -/
theorem commaSeparated {p : Counted α} {q : Parser α} (h : Tallies log mid x x p q) :
    Tallies log (fun items => ∀ a ∈ items, mid a) x x (Counted.commaSeparated p)
      (Grammar.commaSeparated q) := by
  have others : Tallies log (fun items => ∀ a ∈ items, mid a) x x
      (Counted.many (·.isPunct .comma) (do
        let _ ← Counted.plain advance
        p))
      (Grammar.many (·.isPunct .comma) (do
        let _ ← advance
        q)) := by
    refine (iterate (fun items t => ?_) []).weaken fun _ hkeeps => hkeeps (by simp)
    refine (skip .advance fun _ => h).bind fun a => .pure fun ha hitems => ?_
    exact forall_mem_concat_iff.mpr ⟨hitems, ha⟩
  refine h.bind fun first => others.bind fun items => .pure fun hitems hfirst => ?_
  exact List.forall_mem_cons.mpr ⟨hfirst, hitems⟩

/-- The last sign of a statement, and the comment behind it. -/
theorem lastSign (mode : Mode) (p : Punct) {h : List Comment → β}
    (hpost : ∀ behind, post (h behind)) :
    Tallies log post x x
      (do
        let _ ← Counted.plain (expectSign p)
        let behind ← Counted.plain (takeTrailing mode)
        Pure.pure (h behind))
      (do
        let _ ← expectSign p
        let behind ← takeTrailing mode
        Pure.pure (h behind)) :=
  .skip (expectSign_marches p).progresses fun _ =>
    .skip (.takeTrailing mode) fun behind => .pure (hpost behind)

end Tallies

/-! ### Values -/

section Values

variable {d : Nat} {x : List Block}

theorem literalFieldValue_tallies {post : Value → Prop} {value' : Counted Value}
    {value : Parser Value} (hvalue : Tallies log post d d value' value) (key : String) :
    Tallies log post d d (Counted.literalFieldValue value' key) (literalFieldValue value key) := by
  refine .skip (accept_progresses .colon) fun found => .ite hvalue ?_
  exact .look fun t => .ite hvalue (.plain (.fail rfl))

/-- The fields of a literal are as deep as their values, also where values of one key are gathered.
-/
theorem literalFields_tallies {value' : Counted Value} {value : Parser Value}
    (hvalue : Tallies log (fun v => Descends log d v.literalDepth) d d value' value) :
    Tallies log (fun fields => ∀ p ∈ fields, Descends log d p.2.literalDepth) d d
      (Counted.literalFields value') (literalFields value) := by
  refine .untilBrace _ (fun fields t => ?_) (by simp)
  have stop : Progresses Anywhere false True Anything (unexpected (α := Unit) t .literalEnd) :=
    .fail rfl
  have field : Tallies log (fun fields' => (∀ p ∈ fields, Descends log d p.2.literalDepth) →
        ∀ p ∈ fields', Descends log d p.2.literalDepth) d d
      (do
        let key ← Counted.plain literalKey
        let v ← Counted.literalFieldValue value' key
        Counted.plain literalSeparator
        pure (Value.addField fields key v))
      (do
        let key ← literalKey
        let v ← literalFieldValue value key
        literalSeparator
        pure (Value.addField fields key v)) := by
    apply Tallies.skip literalKey_marches.progresses
    intro key
    apply (literalFieldValue_tallies hvalue key).bind
    intro v
    refine .skip literalSeparator_progresses fun _ => .pure fun hv hfields => ?_
    exact descends_addField hfields hv
  exact .ite (.skip stop fun _ => field) field

/-- The rule for message literals, by the levels around them. -/
theorem messageLiteral_room (value : Nat → Parser Value) (brace : Token) (d : Nat) :
    messageLiteral value brace (maxDepth - d) =
      if d < maxDepth then do
        let fields ← literalFields (value (maxDepth - (d + 1)))
        let _ ← expectSign .rbrace
        pure (.message fields)
      else fail (.defect brace.pos (.tooDeep maxDepth)) := by
  by_cases hlt : d < maxDepth
  · have hroom : maxDepth - d = maxDepth - (d + 1) + 1 := by omega
    rw [if_pos hlt, hroom]
    rfl
  · have hroom : maxDepth - d = 0 := by omega
    rw [if_neg hlt, hroom]
    rfl

/-- Values that are read inside any blocks within the limit. -/
def ValueTallies (log : List Mark) (value' : List Block → Counted Value)
    (value : Nat → Parser Value) : Prop :=
  ∀ d x, Inside d x →
    Tallies log (fun v => Descends log d v.literalDepth) d d (value' x) (value (maxDepth - d))

/-- A message literal opens a level, and the literals inside it stand one level deeper. -/
theorem messageLiteral_tallies {value' : List Block → Counted Value} {value : Nat → Parser Value}
    (hvalue : ValueTallies log value' value) (brace : Token) (hx : Inside d x) :
    Tallies log (fun v => Descends log d v.literalDepth) d d
      (Counted.messageLiteral value' brace x) (messageLiteral value brace (maxDepth - d)) := by
  rw [messageLiteral_room]
  apply Tallies.enter rfl hx
  intro hlt
  apply (literalFields_tallies (hvalue _ _ (hx.level rfl hlt))).bind
  intro fields
  apply Tallies.skip (expectSign_marches .rbrace).progresses
  intro _
  refine .leave (.pure fun hfields hopened => ?_)
  rw [Value.literalDepth]
  exact .succ hopened (descends_fieldsDepth_iff.mpr hfields)

/-- A list is no level. -/
theorem listLiteral_tallies {value' : Counted Value} {value : Parser Value}
    (hvalue : Tallies log (fun v => Descends log d v.literalDepth) d d value' value) :
    Tallies log (fun v => Descends log d v.literalDepth) d d (Counted.listLiteral value')
      (listLiteral value) := by
  have close (items : List Value) : Tallies log
      (fun v => (∀ v ∈ items, Descends log d v.literalDepth) → Descends log d v.literalDepth) d d
      (do
        let _ ← Counted.plain (expectSign .rbracket)
        pure (Value.list items))
      (do
        let _ ← expectSign .rbracket
        pure (Value.list items)) := by
    refine .skip (expectSign_marches .rbracket).progresses fun _ => .pure fun hitems => ?_
    rw [Value.literalDepth]
    exact descends_itemsDepth_iff.mpr hitems
  refine .look fun t => .ite ?_ (hvalue.commaSeparated.bind close)
  exact (Tallies.pure (by simp)).bind close

/-- Only a message literal takes levels, and the other values have no literals or those of their
items. -/
theorem valueStep_tallies {value' : List Block → Counted Value} {value : Nat → Parser Value}
    (hvalue : ValueTallies log value' value) (hx : Inside d x) :
    Tallies log (fun v => Descends log d v.literalDepth) d d (Counted.valueStep value' x)
      (valueStep value (maxDepth - d)) := by
  have flat {v : Value} (h : v.literalDepth = 0) : Descends log d v.literalDepth := h ▸ .zero
  apply Tallies.look
  intro t
  have word : Tallies log (fun v => Descends log d v.literalDepth) d d
      (if t.isWord "true" || t.isWord "false" then do
          let _ ← Counted.plain advance
          pure (Value.boolean (t.text = "true"))
        else if t.isName then .identifier <$> Counted.plain fullIdent
        else Counted.plain (unexpected t .optionValue))
      (if t.isWord "true" || t.isWord "false" then do
          let _ ← advance
          pure (Value.boolean (t.text = "true"))
        else if t.isName then .identifier <$> fullIdent
        else unexpected t .optionValue) := by
    refine .ite (.skip .advance fun _ => .pure (flat rfl)) (.ite ?_ (.plain (.fail rfl)))
    exact .map fullIdent_marches.progresses fun _ => flat rfl
  cases hkind : t.kind with
  | string => exact .map stringValue_marches.progresses fun _ => flat rfl
  | number =>
      apply Tallies.skip .advance
      intro _
      exact .skip (numberOf_progresses fun _ => ⟨True.intro, hkind⟩) fun n => .pure (flat rfl)
  | punct p =>
      cases p with
      | minus =>
          apply Tallies.skip .advance
          intro _
          exact .skip unsignedNumber_marches.progresses fun n => .pure (flat rfl)
      | plus =>
          apply Tallies.skip .advance
          intro _
          exact .skip unsignedNumber_marches.progresses fun n => .pure (flat rfl)
      | lbrace => exact .skip .advance fun _ => messageLiteral_tallies hvalue t hx
      | lbracket =>
          exact .skip .advance fun _ => listLiteral_tallies (hvalue _ _ (hx.block rfl))
      | _ => exact word
  | _ => exact word

/-- A value is logged where it begins and ends, with the literals in it. -/
theorem valueWithin_tallies (bound d : Nat) (x : List Block) (hx : Inside d x) :
    Tallies log (fun v => Spans log .value d ∧ Descends log d v.literalDepth) d d
      (Counted.valueWithin bound x) (valueWithin bound (maxDepth - d)) := by
  induction bound generalizing d x with
  | zero => exact .stalled
  | succ bound ih =>
      refine .item hx (valueStep_tallies (fun d x hx => ?_) hx)
      exact (ih d x hx).weaken fun _ h => h.2

end Values

/-! ### Options -/

section Options

variable {d : Nat} {x : List Block} (mode : Mode)

/-- The value of an option is logged inside the levels around the option. -/
theorem optionAssignment_tallies (hx : Inside d x) :
    Tallies log (SchemaOption.Logged log d) d d (Counted.optionAssignment x)
      (optionAssignment (maxDepth - d)) := by
  have value : Tallies log (fun v => Spans log .value d ∧ Descends log d v.literalDepth) d d
      (Counted.optionValue x) (optionValue (maxDepth - d)) :=
    ⟨fun m hm => (valueWithin_tallies (m.cursor.rest.length + 1) d x hx).run m hm⟩
  apply Tallies.skip optionName_marches.progresses
  intro name
  apply Tallies.skip (expectSign_marches .equals).progresses
  intro _
  exact value.bind fun v => .pure fun hv => ⟨hv.1, hv.2⟩

theorem optionStatement_tallies (hx : Inside d x) :
    Tallies log (SchemaOption.Logged log d) d d (Counted.optionStatement mode x)
      (optionStatement mode (maxDepth - d)) := by
  refine Tallies.weaken (.item hx ?_) fun _ h => h.2
  apply Tallies.skip (expectKeyword_marches .optionKw).progresses
  intro _
  exact (optionAssignment_tallies hx).bind fun o => .lastSign mode .semicolon fun _ => id

/-- A statement without options. -/
theorem statement_tallies {q : Parser α} (hx : Inside d x)
    (hq : Progresses Anywhere false True Anything q) :
    Tallies log Anything d d (Counted.item .statement x (Counted.plain q)) q :=
  (Tallies.item hx (.plain hq)).weaken fun _ _ => True.intro

theorem emptyStatement_tallies (hx : Inside d x) :
    Tallies log Anything d d (Counted.emptyStatement x) advance :=
  statement_tallies hx (Progresses.advance.weaken fun _ _ _ => True.intro)

/-- Options in brackets stand inside the same levels as what they belong to. -/
theorem inlineOptions_tallies (hx : Inside d x) :
    Tallies log (fun options => ∀ o ∈ options, o.Logged log d) d d (Counted.inlineOptions x)
      (inlineOptions (maxDepth - d)) := by
  refine .skip (accept_progresses .lbracket) fun found => .ite ?_ (.pure (by simp))
  apply (optionAssignment_tallies hx).commaSeparated.bind
  intro options
  exact .skip (expectSign_marches .rbracket).progresses fun _ => .pure id

end Options

/-! ### Services

They stand outside of all levels. -/

section Services

variable {x : List Block} (mode : Mode)

theorem methodItem_tallies (hx : Inside 0 x) (options : List SchemaOption) (t : Token) :
    Tallies log (fun options' => (∀ o ∈ options, o.Logged log 0) → ∀ o ∈ options', o.Logged log 0)
      0 0 (Counted.methodItem mode x options t) (methodItem mode options t) := by
  have refused : Tallies log (fun options' : List SchemaOption =>
        (∀ o ∈ options, o.Logged log 0) → ∀ o ∈ options', o.Logged log 0) 0 0
      (Counted.plain (unexpected t .methodItem)) (unexpected t .methodItem) := .plain (.fail rfl)
  unfold Counted.methodItem methodItem
  cases t.kind with
  | keyword k =>
      cases k with
      | optionKw =>
          refine (optionStatement_tallies mode hx).bind fun o => .pure fun ho hoptions => ?_
          exact forall_mem_concat_iff.mpr ⟨hoptions, ho⟩
      | _ => exact refused
  | punct p =>
      cases p with
      | semicolon => exact (emptyStatement_tallies hx).andThen fun _ => .pure id
      | _ => exact refused
  | _ => exact refused

/-- The body of a method is a block that is no level. -/
theorem methodBody_tallies (hx : Inside 0 x) :
    Tallies log (fun options => ∀ o ∈ options, o.Logged log 0) 0 0 (Counted.methodBody mode x)
      (methodBody mode) := by
  refine .skip (accept_progresses .lbrace) fun found => .ite ?_ ?_
  · apply (Tallies.untilBrace _ (methodItem_tallies mode (hx.block rfl)) (by simp)).bind
    intro options
    apply Tallies.skip (expectSign_marches .rbrace).progresses
    intro _
    exact .skip (accept_progresses .semicolon) fun _ => .pure id
  · exact .skip (expectKind_marches _ (by simp)).progresses fun _ => .pure (by simp)

/-- The options of a method are some of those that were written. -/
theorem mem_of_mem_splitRule {o : SchemaOption} {options : List SchemaOption}
    (ho : o ∈ (splitRule options).options) : o ∈ options := by
  induction options with
  | nil => exact ho
  | cons p rest ih =>
      have later (h : o ∈ p :: (splitRule rest).options) : o ∈ p :: rest := by
        rcases List.mem_cons.mp h with rfl | hrest
        · exact List.mem_cons_self
        · exact List.mem_cons_of_mem p (ih hrest)
      unfold splitRule at ho
      split at ho
      · split at ho
        · exact List.mem_cons_of_mem p ho
        · exact later ho
      · exact later ho

/-- What is left of the options of a method when its rule is taken out is logged. -/
theorem method_tallies (hx : Inside 0 x) :
    Tallies log (fun m => ∀ o ∈ m.options, o.Logged log 0) 0 0 (Counted.method mode x)
      (method mode) := by
  refine Tallies.weaken (.item hx ?_) fun _ h => h.2
  apply Tallies.skip (.takeComments mode)
  intro before
  apply Tallies.skip (expectKeyword_marches .rpcKw).progresses
  intro _
  apply Tallies.skip (expectName_marches .methodName).progresses
  intro name
  apply Tallies.skip methodType_marches.progresses
  intro input
  apply Tallies.skip (expectKeyword_marches .returnsKw).progresses
  intro _
  apply Tallies.skip methodType_marches.progresses
  intro output
  apply (methodBody_tallies mode hx).bind
  intro options
  refine .skip (.defer _ _) fun _ => .skip (.takeTrailing mode) fun behind => ?_
  exact .pure fun hoptions o ho => hoptions o (mem_of_mem_splitRule ho)

theorem serviceItem_tallies (hx : Inside 0 x) (s : Service) (t : Token) :
    Tallies log (fun s' => s.Logged log → s'.Logged log) 0 0 (Counted.serviceItem mode x s t)
      (serviceItem mode s t) := by
  have refused : Tallies log (fun s' : Service => s.Logged log → s'.Logged log) 0 0
      (Counted.plain (unexpected t .serviceItem)) (unexpected t .serviceItem) := .plain (.fail rfl)
  unfold Counted.serviceItem serviceItem
  cases t.kind with
  | keyword k =>
      cases k with
      | rpcKw =>
          apply (method_tallies mode hx).bind
          intro m
          refine .skip (declare_member_progresses mode _ _ _ _) fun _ => .pure fun hm hs => ?_
          exact ⟨hs.options, forall_mem_concat_iff.mpr ⟨hs.methods, hm⟩⟩
      | optionKw =>
          refine (optionStatement_tallies mode hx).bind fun o => .pure fun ho hs => ?_
          exact ⟨forall_mem_concat_iff.mpr ⟨hs.options, ho⟩, hs.methods⟩
      | _ => exact refused
  | punct p =>
      cases p with
      | semicolon => exact (emptyStatement_tallies hx).andThen fun _ => .pure id
      | _ => exact refused
  | _ => exact refused

/-- A service is a block that is no level. -/
theorem service_tallies :
    Tallies log (Service.Logged log) 0 0 (Counted.service mode []) (service mode) := by
  refine Tallies.weaken (.item .outside ?_) fun _ h => h.2
  apply Tallies.skip (.takeComments mode)
  intro before
  apply Tallies.skip (expectKeyword_marches .serviceKw).progresses
  intro _
  apply Tallies.skip (expectName_marches .serviceName).progresses
  intro name
  apply Tallies.skip (expectSign_marches .lbrace).progresses
  intro _
  have start : Service.Logged log ⟨name.text, [], [], before⟩ := ⟨by simp, by simp⟩
  apply (Tallies.untilBrace _ (serviceItem_tallies mode (Inside.outside.block rfl)) start).bind
  intro s
  exact .lastSign mode .rbrace fun behind hs => ⟨hs.options, hs.methods⟩

end Services

/-! ### Enums -/

section Enums

variable {d : Nat} {x : List Block} (mode : Mode)

theorem enumValue_tallies (hx : Inside d x) :
    Tallies log (fun v => ∀ o ∈ v.options, o.Logged log d) d d (Counted.enumValue mode x)
      (enumValue mode (maxDepth - d)) := by
  refine Tallies.weaken (.item hx ?_) fun _ h => h.2
  apply Tallies.skip (.takeComments mode)
  intro before
  apply Tallies.skip (expectName_marches .enumValueName).progresses
  intro name
  apply Tallies.skip (expectSign_marches .equals).progresses
  intro _
  apply Tallies.skip signedInteger_marches.progresses
  intro number
  apply (inlineOptions_tallies hx).bind
  intro options
  exact .lastSign mode .semicolon fun behind => id

theorem enumItem_tallies (hx : Inside d x) (e : Enumeration) (t : Token) :
    Tallies log (fun e' => e.Logged log d → e'.Logged log d) d d (Counted.enumItem mode x e t)
      (enumItem mode (maxDepth - d) e t) := by
  have value : Tallies log (fun e' : Enumeration => e.Logged log d → e'.Logged log d) d d
      (do
        let v ← Counted.enumValue mode x
        Counted.plain
          (declare mode (e.values.any (·.name = v.name)) (.member e.name v.name) t.pos.line)
        pure { e with values := e.values ++ [v] })
      (do
        let v ← enumValue mode (maxDepth - d)
        declare mode (e.values.any (·.name = v.name)) (.member e.name v.name) t.pos.line
        pure { e with values := e.values ++ [v] }) := by
    apply (enumValue_tallies mode hx).bind
    intro v
    refine .skip (declare_member_progresses mode _ _ _ _) fun _ => .pure fun hv he => ?_
    exact ⟨he.options, forall_mem_concat_iff.mpr ⟨he.values, hv⟩⟩
  have reservation : Progresses Anywhere false True Anything (reserved mode maxEnumNumber) :=
    (reserved_marches mode fun _ => quotable_of_short (by decide)).progresses
  unfold Counted.enumItem enumItem
  cases t.kind with
  | keyword k =>
      cases k with
      | optionKw =>
          refine (optionStatement_tallies mode hx).bind fun o => .pure fun ho he => ?_
          exact ⟨forall_mem_concat_iff.mpr ⟨he.options, ho⟩, he.values⟩
      | reservedKw =>
          refine (statement_tallies hx reservation).andThen fun r => .pure fun he => ?_
          exact ⟨he.options, he.values⟩
      | _ => exact value
  | punct p =>
      cases p with
      | semicolon => exact (emptyStatement_tallies hx).andThen fun _ => .pure id
      | _ => exact value
  | eof => exact .plain (.fail rfl)
  | _ => exact value

/-- An enum is a block that is no level. -/
theorem enumeration_tallies (hx : Inside d x) :
    Tallies log (Enumeration.Logged log d) d d (Counted.enumeration mode x)
      (enumeration mode (maxDepth - d)) := by
  refine Tallies.weaken (.item hx ?_) fun _ h => h.2
  apply Tallies.skip (.takeComments mode)
  intro before
  apply Tallies.skip (expectKeyword_marches .enumKw).progresses
  intro _
  apply Tallies.skip (expectName_marches .enumName).progresses
  intro name
  apply Tallies.skip (expectSign_marches .lbrace).progresses
  intro _
  have start : Enumeration.Logged log d ⟨name.text, [], [], before, [], []⟩ := ⟨by simp, by simp⟩
  apply (Tallies.untilBrace _ (enumItem_tallies mode (hx.block rfl)) start).bind
  intro e
  exact .lastSign mode .rbrace fun behind he => ⟨he.options, he.values⟩

end Enums

/-! ### Messages -/

section Messages

variable {d : Nat} {x : List Block} (mode : Mode)

theorem field_tallies (hx : Inside d x) (oneof : Option String) :
    Tallies log (Field.Logged log d) d d (Counted.field mode x oneof)
      (field mode (maxDepth - d) oneof) := by
  refine Tallies.weaken (.item hx ?_) fun _ h => h.2
  apply Tallies.skip (.takeComments mode)
  intro before
  apply Tallies.skip (fieldLabel_progresses oneof.isSome)
  intro label
  apply Tallies.skip (fieldType_marches label).progresses
  intro type
  apply Tallies.skip (expectName_marches .fieldName).progresses
  intro name
  apply Tallies.skip (expectSign_marches .equals).progresses
  intro _
  apply Tallies.skip (fieldNumber_marches mode).progresses
  intro number
  apply (inlineOptions_tallies hx).bind
  intro options
  exact .lastSign mode .semicolon fun behind => id

theorem oneofItem_tallies (hx : Inside d x) (g : Oneof) (t : Token) :
    Tallies log (fun g' => g.Logged log d → g'.Logged log d) d d (Counted.oneofItem mode x g t)
      (oneofItem mode (maxDepth - d) g t) := by
  have member : Tallies log (fun g' : Oneof => g.Logged log d → g'.Logged log d) d d
      (do
        let f ← Counted.field mode x (some g.name)
        pure { g with fields := g.fields ++ [f] })
      (do
        let f ← field mode (maxDepth - d) (some g.name)
        pure { g with fields := g.fields ++ [f] }) := by
    refine (field_tallies mode hx (some g.name)).bind fun f => .pure fun hf hg => ?_
    exact ⟨hg.options, forall_mem_concat_iff.mpr ⟨hg.fields, hf⟩⟩
  unfold Counted.oneofItem oneofItem
  cases t.kind with
  | keyword k =>
      cases k with
      | optionKw =>
          refine (optionStatement_tallies mode hx).bind fun o => .pure fun ho hg => ?_
          exact ⟨forall_mem_concat_iff.mpr ⟨hg.options, ho⟩, hg.fields⟩
      | _ => exact member
  | punct p =>
      cases p with
      | semicolon => exact (emptyStatement_tallies hx).andThen fun _ => .pure id
      | _ => exact member
  | eof => exact .plain (.fail rfl)
  | _ => exact member

/-- A oneof is a block that is no level. -/
theorem oneofGroup_tallies (hx : Inside d x) :
    Tallies log (Oneof.Logged log d) d d (Counted.oneofGroup mode x)
      (oneofGroup mode (maxDepth - d)) := by
  refine Tallies.weaken (.item hx ?_) fun _ h => h.2
  apply Tallies.skip (.takeComments mode)
  intro before
  apply Tallies.skip (expectKeyword_marches .oneofKw).progresses
  intro _
  apply Tallies.skip (expectName_marches .oneofName).progresses
  intro name
  apply Tallies.skip (expectSign_marches .lbrace).progresses
  intro _
  have start : Oneof.Logged log d ⟨name.text, [], [], before⟩ := ⟨by simp, by simp⟩
  apply (Tallies.untilBrace _ (oneofItem_tallies mode (hx.block rfl)) start).bind
  intro g
  exact .lastSign mode .rbrace fun behind hg => ⟨hg.options, hg.fields⟩

/-- A field is logged inside the level of the message that it is declared in. -/
theorem declaredField_tallies (hx : Inside d x) (draft : Draft) (line : Nat) :
    Tallies log (fun draft' => draft.message.Filled log d → draft'.message.Filled log d) d d
      (do
        let f ← Counted.field mode x none
        Counted.plain (draft.declareField mode line f))
      (do
        let f ← field mode (maxDepth - d) none
        draft.declareField mode line f) := by
  apply (field_tallies mode hx none).bind
  intro f
  refine .weaken (.plain (declareField_progresses mode _ draft f fun _ => quotable_anywhere _)) ?_
  rintro draft' hmessage hf ⟨options, fields, oneofs, enums, nested⟩
  rw [hmessage]
  exact ⟨options, forall_mem_concat_iff.mpr ⟨fields, hf⟩, oneofs, enums, nested⟩

/-- What is added to a message is logged inside its level. -/
theorem messageItem_tallies (hx : Inside d x) {nested' : Counted Message} {nested : Parser Message}
    (hnested : Tallies log (Message.Logged log d) d d nested' nested) (draft : Draft) (t : Token) :
    Tallies log (fun draft' => draft.message.Filled log d → draft'.message.Filled log d) d d
      (Counted.messageItem mode x nested' draft t)
      (messageItem mode (maxDepth - d) nested draft t) := by
  have reservation : Progresses Anywhere false True Anything (reserved mode maxFieldNumber) :=
    (reserved_marches mode fun _ => quotable_of_short (by decide)).progresses
  unfold Counted.messageItem messageItem
  dsimp only
  cases t.kind with
  | keyword k =>
      cases k with
      | messageKw =>
          apply hnested.bind
          intro m
          apply (Tallies.plain (declareName_progresses mode _ draft m.name)).bind
          intro draft'
          refine .pure fun hmessage hm ⟨options, fields, oneofs, enums, nested⟩ => ?_
          rw [hmessage]
          exact ⟨options, fields, oneofs, enums, forall_mem_concat_iff.mpr ⟨nested, hm⟩⟩
      | enumKw =>
          apply (enumeration_tallies mode hx).bind
          intro e
          apply (Tallies.plain (declareName_progresses mode _ draft e.name)).bind
          intro draft'
          refine .pure fun hmessage he ⟨options, fields, oneofs, enums, nested⟩ => ?_
          rw [hmessage]
          exact ⟨options, fields, oneofs, forall_mem_concat_iff.mpr ⟨enums, he⟩, nested⟩
      | optionKw =>
          apply (optionStatement_tallies mode hx).bind
          intro o
          refine .pure fun ho ⟨options, fields, oneofs, enums, nested⟩ => ?_
          exact ⟨forall_mem_concat_iff.mpr ⟨options, ho⟩, fields, oneofs, enums, nested⟩
      | oneofKw =>
          apply (oneofGroup_tallies mode hx).bind
          intro g
          apply (Tallies.plain (declareName_progresses mode _ draft g.name)).bind
          intro draft'
          refine (Tallies.plain (declareFields_progresses mode _ draft' g.fields
            fun _ f _ => quotable_anywhere f.number)).bind fun draft'' => ?_
          refine .pure fun hfields hname hg ⟨options, fields, oneofs, enums, nested⟩ => ?_
          rw [hfields, hname]
          exact ⟨options, List.forall_mem_append.mpr ⟨fields, hg.fields⟩,
            forall_mem_concat_iff.mpr ⟨oneofs, hg⟩, enums, nested⟩
      | reservedKw =>
          apply (statement_tallies hx reservation).andThen
          intro r
          refine .pure fun ⟨options, fields, oneofs, enums, nested⟩ => ?_
          exact ⟨options, fields, oneofs, enums, nested⟩
      | extensionsKw => exact .plain (.fail rfl)
      | extendKw => exact .plain (.fail rfl)
      | _ => exact declaredField_tallies mode hx draft t.pos.line
  | punct p =>
      cases p with
      | semicolon => exact (emptyStatement_tallies hx).andThen fun _ => .pure id
      | _ => exact declaredField_tallies mode hx draft t.pos.line
  | eof => exact .plain (.fail rfl)
  | _ => exact declaredField_tallies mode hx draft t.pos.line

/-- A message behind its name is inside its own level, and outside of it when it ends. -/
theorem messageBlock_tallies (hx : Inside (d + 1) x) {nested' : Counted Message}
    {nested : Parser Message}
    (hnested : Tallies log (Message.Logged log (d + 1)) (d + 1) (d + 1) nested' nested)
    (name : String) (before : List Comment) :
    Tallies log (Message.Filled log (d + 1)) (d + 1) d
      (Counted.messageBlock mode x nested' name before)
      (messageBlock mode (maxDepth - (d + 1)) nested name before) := by
  apply Tallies.skip (expectSign_marches .lbrace).progresses
  intro _
  have start : Message.Filled log (d + 1) ⟨name, [], [], [], [], before, [], [], []⟩ :=
    ⟨by simp, by simp, by simp, by simp, by simp⟩
  refine (Tallies.untilBrace (fun draft => draft.message.Filled log (d + 1))
    (messageItem_tallies mode hx hnested) start).bind fun draft => ?_
  refine .skip (checkReserved_progresses mode draft fun _ f _ => quotable_anywhere _) fun _ => ?_
  refine .skip (expectSign_marches .rbrace).progresses fun _ => .leave ?_
  apply Tallies.skip (.takeTrailing mode)
  intro behind
  refine .pure fun ⟨options, fields, oneofs, enums, nested⟩ => ?_
  exact ⟨options, fields, oneofs, enums, nested⟩

/-- The rule for messages, by the levels around them. -/
theorem message_room (d : Nat) :
    message mode (maxDepth - d) = (do
      let comments ← takeComments mode
      let _ ← expectKeyword .messageKw
      let name ← expectName .messageName
      if d < maxDepth then
        messageBlock mode (maxDepth - (d + 1)) (message mode (maxDepth - (d + 1)))
          name.text comments
      else fail (.defect name.pos (.tooDeep maxDepth))) := by
  by_cases hlt : d < maxDepth
  · have hroom : maxDepth - d = maxDepth - (d + 1) + 1 := by omega
    simp only [if_pos hlt]
    rw [hroom]
    rfl
  · have hroom : maxDepth - d = 0 := by omega
    simp only [if_neg hlt]
    rw [hroom]
    rfl

/-- The bound lasts, since every message inside another one leaves less room. -/
theorem messageWithin_tallies (bound d : Nat) (x : List Block) (hx : Inside d x)
    (hbound : maxDepth - d < bound) :
    Tallies log (Message.Logged log d) d d (Counted.messageWithin mode bound x)
      (message mode (maxDepth - d)) := by
  induction bound generalizing d x with
  | zero => cases hbound
  | succ bound ih =>
      rw [message_room]
      have body : Tallies log (fun m => Opened log (d + 1) ∧ m.Filled log (d + 1)) d d
          (do
            let comments ← Counted.plain (takeComments mode)
            let _ ← Counted.plain (expectKeyword .messageKw)
            let name ← Counted.plain (expectName .messageName)
            Counted.enter (.message :: x) name
            Counted.messageBlock mode (.message :: x)
              (Counted.messageWithin mode bound (.message :: x)) name.text comments)
          (do
            let comments ← takeComments mode
            let _ ← expectKeyword .messageKw
            let name ← expectName .messageName
            if d < maxDepth then
              messageBlock mode (maxDepth - (d + 1)) (message mode (maxDepth - (d + 1))) name.text
                comments
            else fail (.defect name.pos (.tooDeep maxDepth))) := by
        apply Tallies.skip (.takeComments mode)
        intro before
        apply Tallies.skip (expectKeyword_marches .messageKw).progresses
        intro _
        apply Tallies.skip (expectName_marches .messageName).progresses
        intro name
        apply Tallies.enter rfl hx
        intro hlt
        -- One level more leaves less room, so the bound on the messages inside lasts.
        have nested := ih (d + 1) (.message :: x) (hx.level rfl hlt) (by omega)
        refine (messageBlock_tallies mode (hx.level rfl hlt) nested name.text before).weaken ?_
        exact fun m hm hopened => ⟨hopened, hm⟩
      exact (Tallies.item hx body).weaken fun m ⟨hspan, hopened, hm⟩ => hm.logged hspan hopened

end Messages

/-! ### Files -/

section Files

variable (mode : Mode)

theorem headerItem_tallies (f : SchemaFile) (t : Token) :
    Tallies log (fun f' => f.Logged log → f'.Logged log) 0 0 (Counted.headerItem mode f t)
      (headerItem mode f t) := by
  have other : Tallies log (fun f' : SchemaFile => f.Logged log → f'.Logged log) 0 0
      (do
        let _ ← Counted.emptyStatement []
        pure f)
      (do
        let _ ← advance
        pure f) :=
    (emptyStatement_tallies .outside).andThen fun _ => .pure id
  unfold Counted.headerItem headerItem
  cases t.kind with
  | keyword k =>
      cases k with
      | packageKw =>
          refine .ite (.plain (.fail rfl)) ?_
          refine (Tallies.item .outside (.plain (package_marches mode).progresses)).andThen
            fun name => .pure fun hf => ?_
          exact ⟨hf.options, hf.services, hf.messages, hf.enums⟩
      | importKw =>
          refine (statement_tallies .outside (importStatement_marches mode).progresses).andThen
            fun i => .pure fun hf => ?_
          exact ⟨hf.options, hf.services, hf.messages, hf.enums⟩
      | optionKw =>
          refine (optionStatement_tallies mode .outside).bind fun o => .pure fun ho hf => ?_
          exact ⟨forall_mem_concat_iff.mpr ⟨hf.options, ho⟩, hf.services, hf.messages, hf.enums⟩
      | _ => exact other
  | _ => exact other

theorem header_tallies :
    Tallies log (SchemaFile.Logged log) 0 0 (Counted.header mode) (header mode) := by
  have items (f : SchemaFile) (hf : f.Logged log) : Tallies log (SchemaFile.Logged log) 0 0
      (Counted.iterate isHeaderStart (Counted.headerItem mode) f)
      (iterate isHeaderStart (headerItem mode) f) :=
    (Tallies.iterate (headerItem_tallies mode) f).weaken fun _ hkeeps => hkeeps hf
  have start (v : Version) : SchemaFile.Logged log { SchemaFile.empty with version := v } := by
    constructor <;> simp [SchemaFile.empty]
  refine .look fun t => .ite ?_ ?_
  · exact (statement_tallies .outside (version_marches mode).progresses).andThen fun v =>
      items _ (start v)
  · exact items _ (start .proto3)

theorem definition_tallies (f : SchemaFile) (t : Token) :
    Tallies log (fun f' => f.Logged log → f'.Logged log) 0 0 (Counted.definition mode f t)
      (definition mode f t) := by
  have refused : Tallies log (fun f' : SchemaFile => f.Logged log → f'.Logged log) 0 0
      (Counted.plain (fail (.trailing t.text t.pos))) (fail (.trailing t.text t.pos)) :=
    .plain (.fail rfl)
  unfold Counted.definition definition
  dsimp only
  cases t.kind with
  | keyword k =>
      cases k with
      | serviceKw =>
          apply (service_tallies mode).bind
          intro s
          refine .skip (declare_named_progresses mode _ _ _) fun _ => .pure fun hs hf => ?_
          exact ⟨hf.options, forall_mem_concat_iff.mpr ⟨hf.services, hs⟩, hf.messages, hf.enums⟩
      | messageKw =>
          have message := @messageWithin_tallies log mode (maxDepth + 1) 0 [] .outside (by omega)
          apply message.bind
          intro m
          refine .skip (declare_named_progresses mode _ _ _) fun _ => .pure fun hm hf => ?_
          exact ⟨hf.options, hf.services, forall_mem_concat_iff.mpr ⟨hf.messages, hm⟩, hf.enums⟩
      | enumKw =>
          apply (enumeration_tallies mode .outside).bind
          intro e
          refine .skip (declare_named_progresses mode _ _ _) fun _ => .pure fun he hf => ?_
          exact ⟨hf.options, hf.services, hf.messages, forall_mem_concat_iff.mpr ⟨hf.enums, he⟩⟩
      | extendKw => exact .plain (.fail rfl)
      | _ => exact refused
  | punct p =>
      cases p with
      | semicolon => exact (emptyStatement_tallies .outside).andThen fun _ => .pure id
      | _ => exact refused
  | _ => exact refused

/-- The file that is read is logged. -/
theorem file_tallies : Tallies log (SchemaFile.Logged log) 0 0 (Counted.file mode) (file mode) :=
  (header_tallies mode).bind fun f => .iterate (definition_tallies mode) f

end Files

/-! ### Whole texts -/

/-- A tally of a reading: it has the outcome of the reading, and all its marks are exact up to an
opening that is one level too many. The tree of a reading is logged in its marks. -/
inductive Tally.Accounts : Except Failure SchemaFile → Tally → Prop where
  | ok {f : SchemaFile} {marks : List Mark} (hmarks : ∀ k ∈ marks, k.Exact)
      (logged : f.Logged marks) : Tally.Accounts (.ok f) ⟨.ok f, 0, marks⟩
  | error {e : Failure} {depth : Int} {marks : List Mark} (halts : Halts e marks) :
      Tally.Accounts (.error e) ⟨.error e, depth, marks⟩

theorem tallyTokens_accounts (mode : Mode) (s : TokenStream) :
    Tally.Accounts (readTokens mode s).outcome (tallyTokens mode s) := by
  have ends (log : List Mark) := (@file_tallies log mode).run ⟨.ofStream s, 0, []⟩ rfl
  unfold readTokens tallyTokens
  simp only at ends
  generalize file mode (.ofStream s) = r, Counted.file mode ⟨.ofStream s, 0, []⟩ = t at ends
  cases t with
  | ok f m =>
      -- The log is the list of all marks of the reading.
      cases ends m.marks with
      | ok hmarks hlog => exact .ok hmarks (hlog (List.Subset.refl _))
  | error e m =>
      cases ends [] with
      | error halts => exact .error halts

/-- A text that the lexer refuses has no marks, and the depth is not the reason. -/
theorem tally_accounts (mode : Mode) (text : String) :
    Tally.Accounts (parse mode text) (tally mode text) := by
  unfold parse read tally
  cases htokens : Source.tokens text with
  | ok s => exact tallyTokens_accounts mode s
  | error e =>
      have hplain := Source.tokensFrom_isPlain htokens
      exact .error (.elsewhere (@Blamed.plain Anywhere false e hplain).isTooDeep (by simp))

end ProtoRoutes.Grammar
