import Mathlib.Data.List.Forall2
import ProtoRoutes.Proofs.Grammar.Streams
import ProtoRoutes.Proofs.Source.TokenOrder

/-!
# ProtoRoutes.Proofs.Grammar.Ledger

**Every comment is held once.** While a file is read, a ledger is kept of its declarations: the
first and the last token of each, and the comment tokens that became its comments. Tokens that are
held are gone: what the ledger holds and what is still in front of the reader (`Cursor.pool`) is
never more than what there was before.

A steady rule moves the cursor in few ways (`Cursor.Step`), so what is known of a place
(`Cursor.Within`) and that the pool never grows is shown once for all of them. The rules that build
declarations are followed by

* `Books post p`: what `p` reads goes to the ledger, and `post` says which declarations that are;
* `Opens post p` and `Concludes post p`: the same for the part of a declaration from its first token
  on, and for the part behind that, up to where the comment behind the declaration is taken.

`Books.declaration` makes the entry of a declaration from its parts.
-/

namespace ProtoRoutes

/-! ### Declarations -/

/-- A declaration in a file, which comments are attached to. -/
inductive Element where
  | service (s : Service)
  | method (m : Method)
  | message (m : Message)
  | field (f : Field)
  | oneof (o : Oneof)
  | enumeration (e : Enumeration)
  | value (v : EnumValue)

/-- The comments of a declaration. -/
def Element.comments : Element → List Comment
  | service s => s.comments
  | method m => m.comments
  | message m => m.comments
  | field f => f.comments
  | oneof o => o.comments
  | enumeration e => e.comments
  | value v => v.comments

/-- The declarations inside a service. -/
def Service.parts (s : Service) : List Element :=
  s.methods.map .method

/-- The declarations inside an enum. -/
def Enumeration.parts (e : Enumeration) : List Element :=
  e.values.map .value

/-- The declarations inside a oneof. -/
def Oneof.parts (o : Oneof) : List Element :=
  o.fields.map .field

/-- A service and what is inside it. -/
def Service.elements (s : Service) : List Element :=
  .service s :: s.parts

/-- An enum and what is inside it. -/
def Enumeration.elements (e : Enumeration) : List Element :=
  .enumeration e :: e.parts

mutual

/-- The declarations inside a message, at every depth. The members of its oneofs are among its
fields. -/
def Message.parts : Message → List Element
  | ⟨_, fields, messages, enums, _, _, oneofs, _, _⟩ =>
    fields.map .field ++ oneofs.map .oneof ++ Message.allElements messages ++
      enums.flatMap Enumeration.elements

/-- Messages and what is inside them. -/
def Message.allElements : List Message → List Element
  | [] => []
  | m :: ms => .message m :: m.parts ++ Message.allElements ms

end

/-- A message and what is inside it. -/
def Message.elements (m : Message) : List Element :=
  .message m :: m.parts

theorem Message.allElements_eq (ms : List Message) :
    Message.allElements ms = ms.flatMap Message.elements := by
  induction ms with
  | nil => rfl
  | cons m ms ih => rw [Message.allElements, ih, List.flatMap_cons, Message.elements]

/-- What is declared in a message, without the recursion over lists. -/
theorem Message.parts_eq (m : Message) :
    m.parts = m.fields.map .field ++ m.oneofs.map .oneof ++ m.messages.flatMap Message.elements ++
      m.enums.flatMap Enumeration.elements := by
  rw [← Message.allElements_eq]
  cases m
  rfl

/-- All declarations of a file. -/
def SchemaFile.elements (f : SchemaFile) : List Element :=
  f.services.flatMap Service.elements ++ f.messages.flatMap Message.elements ++
    f.enums.flatMap Enumeration.elements

namespace Grammar

variable {α β σ : Type} {mode : Mode} {stream : TokenStream}

/-- The grammar reads a declaration from one place to another one. -/
def IsReadBetween (mode : Mode) (c d : Cursor) : Element → Prop
  | .service s => service mode c = .ok s d
  | .method m => method mode c = .ok m d
  | .message m => ∃ room, message mode room c = .ok m d
  | .field f => ∃ room, field mode room f.oneof c = .ok f d
  | .oneof o => ∃ room, oneofGroup mode room c = .ok o d
  | .enumeration e => ∃ room, enumeration mode room c = .ok e d
  | .value v => ∃ room, enumValue mode room c = .ok v d

/-! ### What a cursor can do -/

/-- A token and the comments behind it. -/
def Lexeme.all (l : Lexeme) : List Token :=
  l.token :: l.comments

/-- Attaching comments to tokens loses none and keeps the order. -/
theorem attach_all (ts : List Token) : (attach ts).1 ++ (attach ts).2.flatMap Lexeme.all = ts := by
  induction ts with
  | nil => rfl
  | cons t ts ih =>
      unfold attach
      by_cases ht : t.kind = .comment
      · simp [ht, ih]
      · simp [ht, ih, Lexeme.all]

/-- What is attached in front of a token are comments. -/
theorem attach_comments (ts : List Token) :
    (∀ t ∈ (attach ts).1, t.kind = .comment) ∧ ∀ l ∈ (attach ts).2, ∀ t ∈ l.comments,
      t.kind = .comment := by
  induction ts with
  | nil => simp [attach]
  | cons t ts ih =>
      obtain ⟨first, others⟩ := ih
      unfold attach
      by_cases ht : t.kind = .comment
      · simpa [ht] using ⟨first, others⟩
      · simpa [ht] using ⟨first, others⟩

namespace Cursor

/-- The comments that wait and all tokens that are left. -/
def pool (c : Cursor) : List Token :=
  c.passed ++ c.fresh ++ c.rest.flatMap Lexeme.all

end Cursor

/-! ### Places in a stream -/

namespace Cursor

/-- A place in a stream of tokens in order: what is left of them, what waits, and the token that was
consumed last. -/
structure Within (c : Cursor) (stream : TokenStream) : Prop where
  ordered : Source.Ordered stream.tokens
  isIn : c.IsIn stream
  pool : c.pool.Sublist stream.tokens
  waiting : ∀ t ∈ c.passed ++ c.fresh, t.kind = .comment
  coming : ∀ l ∈ c.rest, ∀ t ∈ l.comments, t.kind = .comment
  last : ∀ ts last, stream.uncommented.tokens = ts ++ last :: c.tokens →
    c.lastLine = last.endLine ∧ (last :: c.fresh).Sublist stream.tokens

/-- At first all tokens are still to come. -/
theorem ofStream_pool (stream : TokenStream) : (ofStream stream).pool = stream.tokens :=
  attach_all stream.tokens

theorem ofStream_within (h : Source.Ordered stream.tokens) : (ofStream stream).Within stream where
  ordered := h
  isIn := ofStream_isIn stream
  pool := (ofStream_pool stream) ▸ List.Sublist.refl _
  waiting := (attach_comments stream.tokens).1
  coming := (attach_comments stream.tokens).2
  last ts last htokens := by
    -- Nothing is consumed yet.
    have hall : (ofStream stream).tokens = stream.uncommented.tokens := attach_tokens stream.tokens
    have hlength := congrArg List.length htokens
    rw [hall, List.length_append, List.length_cons] at hlength
    omega

variable {c d : Cursor}

/-- A move of a cursor brings up no token. -/
theorem Step.pool_sublist (h : c.Step d) : d.pool.Sublist c.pool := by
  cases h with
  | @consume l rest hrest =>
      simp only [pool, hrest, List.flatMap_cons, Lexeme.all, List.append_assoc]
      simp
  | drop hfresh => exact ((List.nil_sublist _).append hfresh.sublist).append (.refl _)
  | note deferrals => exact .refl _

/-- A move of a cursor stays in the stream. -/
theorem Step.within (h : c.Step d) (hc : c.Within stream) : d.Within stream where
  ordered := hc.ordered
  isIn := hc.isIn.forward h.forward
  pool := h.pool_sublist.trans hc.pool
  waiting := by
    cases h with
    | @consume l rest hrest =>
        exact List.forall_mem_append.mpr ⟨hc.waiting, hc.coming l (hrest ▸ List.mem_cons_self)⟩
    | drop hfresh => exact fun t ht => hc.waiting t (List.mem_append_right _ (hfresh.subset ht))
    | note _ => exact hc.waiting
  coming := by
    cases h with
    | @consume l rest hrest => exact fun k hk => hc.coming k (hrest ▸ List.mem_cons_of_mem _ hk)
    | drop _ => exact hc.coming
    | note _ => exact hc.coming
  last := by
    cases h with
    | @consume l rest hrest =>
        intro ts last htokens
        -- The last token is the one that was just consumed.
        obtain ⟨front, hfront⟩ := hc.isIn.tokens
        have hconsumed : front ++ l.token :: rest.map Lexeme.token = stream.uncommented.tokens := by
          rw [← hfront, tokens, hrest, List.map_cons]
        obtain ⟨-, hlast⟩ := List.append_inj' (hconsumed.trans htokens) rfl
        injection hlast with hlast
        subst hlast
        have hall : (l.token :: l.comments).Sublist c.pool := by
          simp only [pool, hrest, List.flatMap_cons, Lexeme.all]
          exact (List.sublist_append_left _ _).trans (List.sublist_append_right _ _)
        exact ⟨rfl, hall.trans hc.pool⟩
    | drop hfresh =>
        intro ts last htokens
        obtain ⟨hline, hsub⟩ := hc.last ts last htokens
        exact ⟨hline, (hfresh.sublist.cons_cons last).trans hsub⟩
    | note _ => exact hc.last

theorem Steps.within (h : Steps c d) (hc : c.Within stream) : d.Within stream := by
  induction h with
  | refl => exact hc
  | tail _ hstep ih => exact hstep.within ih

theorem Steps.pool_sublist (h : Steps c d) : d.pool.Sublist c.pool := by
  induction h with
  | refl => exact .refl _
  | tail _ hstep ih => exact hstep.pool_sublist.trans ih

/-- A token that was consumed has left the pool. -/
theorem Steps.count_next (h : Steps c d) (hless : d.rest.length < c.rest.length) (t : Token) :
    [c.next].count t + d.pool.count t ≤ c.pool.count t := by
  -- The moves in front of the first consumption keep the next token, so the induction starts there.
  induction h using Relation.ReflTransGen.head_induction_on with
  | refl => omega
  | @head c c' hstep hsteps ih =>
      cases hstep with
      | @consume l rest hrest =>
          have hpool := (Steps.pool_sublist hsteps).count_le t
          simp only [pool, next, hrest, List.flatMap_cons, Lexeme.all, List.count_append,
            List.count_cons,
            List.count_nil] at hpool ⊢
          omega
      | drop hfresh =>
          have hpool := (Step.drop hfresh).pool_sublist.count_le t
          exact (ih hless).trans hpool
      | note _ => exact ih hless

end Cursor

/-! ### The ledger -/

/-- A declaration with its first and its last token, and the tokens that its comments come from. -/
structure Record where
  element : Element
  first : Token
  last : Token
  comments : List Token

/-- The tokens that no other declaration holds. -/
def Record.held (r : Record) : List Token :=
  r.first :: r.comments

/-- A comment of a declaration has the text of a token, which stands in front of the first token of
the declaration, or behind the last one on the same line. -/
structure Attached (stream : TokenStream) (first last t : Token) (c : Comment) : Prop where
  mem : t ∈ stream.tokens
  kind : t.kind = .comment
  shown : t.text.isEmpty = false
  text : c.text = t.text
  before : c.kind ≠ .trailing → t.pos.Before first.pos ∧
    (c.kind = .leading ↔ first.pos.line ≤ t.endLine + 1)
  behind : c.kind = .trailing → last.pos.Before t.pos ∧ t.pos.line = last.pos.line

/-- The entry of a declaration that is read in a stream. -/
structure Record.Faithful (mode : Mode) (stream : TokenStream) (r : Record) : Prop where
  read : ∃ c d ts, c.IsIn stream ∧ IsReadBetween mode c d r.element ∧ c.tokens = ts ++ d.tokens ∧
    ts.head? = some r.first ∧ ts.getLast? = some r.last
  attached : List.Forall₂ (Attached stream r.first r.last) r.comments r.element.comments
  trailing : r.element.comments.countP (·.kind = .trailing) ≤ 1

/-- The entries for what was read between two places. -/
structure Booked (mode : Mode) (stream : TokenStream) (c d : Cursor) (ledger : List Record) :
    Prop where
  faithful : ∀ r ∈ ledger, r.Faithful mode stream
  held : ∀ t, (ledger.flatMap Record.held).count t + d.pool.count t ≤ c.pool.count t

namespace Booked

variable {c d e : Cursor} {ledger others : List Record}

theorem nothing (h : Cursor.Steps c d) : Booked mode stream c d [] where
  faithful := by simp
  held t := by simpa using h.pool_sublist.count_le t

/-- The ledgers of two stretches of a text make one of both. No comment is in both of them, since
the second one starts behind the first. -/
theorem append (h : Booked mode stream c d ledger) (h' : Booked mode stream d e others) :
    Booked mode stream c e (ledger ++ others) where
  faithful := List.forall_mem_append.mpr ⟨h.faithful, h'.faithful⟩
  held t := by
    have first := h.held t
    have second := h'.held t
    rw [List.flatMap_append, List.count_append]
    omega

end Booked

/-! ### What a rule adds to the ledger -/

/-- What a rule reads goes to the ledger, and `post` says which declarations that are. -/
structure Books (mode : Mode) (stream : TokenStream) (post : α → List Element → Prop)
    (p : Parser α) :
    Prop where
  run : ∀ c a d, c.Within stream → p c = .ok a d → d.Within stream ∧ Forward c d ∧
    ∃ ledger, Booked mode stream c d ledger ∧ post a (ledger.map Record.element)

namespace Books

variable {p : Parser α} {f : α → Parser β} {post : β → List Element → Prop}

theorem steady {post : α → List Element → Prop} (hp : Steady p)
    (hpost : ∀ c a d, p c = .ok a d → post a []) : Books mode stream post p where
  run c a d hc hrun := by
    have steps := hp.steps_of_ok hrun
    exact ⟨steps.within hc, steps.forward, [], .nothing steps, hpost c a d hrun⟩

theorem pure {post : α → List Element → Prop} {a : α} (h : post a []) :
    Books mode stream post (Pure.pure a) := by
  refine steady (.pure a) fun c b d hrun => ?_
  cases hrun
  exact h

theorem fail {post : α → List Element → Prop} {e : SchemaError} :
    Books mode stream post (Grammar.fail e) :=
  ⟨fun _ _ _ _ hrun => nomatch hrun⟩

/-- What the first part declares comes first in the ledger. -/
theorem bind {mid : α → List Element → Prop} (hp : Books mode stream mid p)
    (hf : ∀ a ds, mid a ds → Books mode stream (fun b ds' => post b (ds ++ ds')) (f a)) :
    Books mode stream post (p >>= f) where
  run c b e hc hrun := by
    obtain ⟨a, d, hfirst, hsecond⟩ := bind_ok_iff.mp hrun
    obtain ⟨hd, forth, ledger, booked, hmid⟩ := hp.run c a d hc hfirst
    obtain ⟨he, forth', others, booked', hpost⟩ := (hf a _ hmid).run d b e hd hsecond
    exact ⟨he, forth.trans forth', ledger ++ others, booked.append booked', List.map_append ▸ hpost⟩

/-- A rule that declares nothing, and what follows its result. -/
theorem ensured {mid : α → Prop} (hp : Steady p) (h : Ensures mid p)
    (hf : ∀ a, mid a → Books mode stream post (f a)) : Books mode stream post (p >>= f) := by
  have first : Books mode stream (fun a ds => mid a ∧ ds = []) p :=
    steady hp fun c a d hrun => ⟨h c a d hrun, rfl⟩
  exact first.bind fun a _ hmid => hmid.2 ▸ hf a hmid.1

theorem andThen (hp : Steady p) (hf : ∀ a, Books mode stream post (f a)) :
    Books mode stream post (p >>= f) :=
  ensured hp (.trivial p) fun a _ => hf a

/-- A weaker relation between the result and its declarations. -/
theorem weaken {post post' : α → List Element → Prop} (hp : Books mode stream post p)
    (h : ∀ a ds, post a ds → post' a ds) : Books mode stream post' p where
  run c a d hc hrun := by
    obtain ⟨hd, forth, ledger, booked, hpost⟩ := hp.run c a d hc hrun
    exact ⟨hd, forth, ledger, booked, h a _ hpost⟩

end Books

/-- A rule that continues something keeps its comments, and adds to its content what it declares. -/
def Adds (mode : Mode) (stream : TokenStream) (comments : σ → List Comment)
    (content : σ → List Element) (s : σ) (p : Parser σ) : Prop :=
  Books mode stream (fun s' ds => comments s' = comments s ∧ (content s').Perm (content s ++ ds)) p

namespace Adds

variable {comments : σ → List Comment} {content : σ → List Element} {s s' : σ} {more : Token → Bool}
  {step : σ → Token → Parser σ}

theorem nothing (hcomments : comments s' = comments s) (hcontent : content s' = content s) :
    Adds mode stream comments content s (Pure.pure s') :=
  .pure ⟨hcomments, by rw [hcontent, List.append_nil]⟩

/-- What was declared just before is added. -/
theorem declared {ds new : List Element} (hcomments : comments s' = comments s)
    (hcontent : (content s').Perm (content s ++ new)) (hds : ds.Perm new) :
    Books mode stream
      (fun s'' ds' => comments s'' = comments s ∧ (content s'').Perm (content s ++ (ds ++ ds')))
      (Pure.pure s') := by
  refine .pure ⟨hcomments, ?_⟩
  rw [List.append_nil]
  exact hcontent.trans (hds.symm.append_left _)

/-- A loop adds what its steps add. -/
theorem iterateFor (h : ∀ s t, Adds mode stream comments content s (step s t)) (n : Nat) (s : σ) :
    Adds mode stream comments content s (Grammar.iterateFor more step n s) := by
  induction n generalizing s with
  | zero => exact ⟨fun _ _ _ _ hrun => nomatch hrun⟩
  | succ n ih =>
      refine ⟨fun c a d hc hrun => ?_⟩
      rw [iterateFor_succ] at hrun
      split at hrun
      · have whole : Adds mode stream comments content s
            (step s c.next >>= Grammar.iterateFor more step n) := by
          refine Books.bind (h s c.next) fun s' ds hs' => (ih s').weaken fun s'' ds' hs'' => ?_
          rw [← List.append_assoc]
          exact ⟨hs''.1.trans hs'.1, hs''.2.trans (hs'.2.append_right ds')⟩
        exact whole.run c a d hc hrun
      · exact (nothing rfl rfl).run c a d hc hrun

/-- A loop adds what its steps add. -/
theorem iterate (h : ∀ s t, Adds mode stream comments content s (step s t)) (s : σ) :
    Adds mode stream comments content s (Grammar.iterate more step s) :=
  ⟨fun c a d hc hrun => (iterateFor h _ s).run c a d hc hrun⟩

end Adds

/-! ### Declarations and their comments -/

/-- The comment tokens that are kept: those with a text, if comments are kept at all. -/
def Mode.kept (mode : Mode) (ts : List Token) : List Token :=
  if mode.comments then ts.filter (!·.text.isEmpty) else []

namespace Mode

theorem kept_sublist (mode : Mode) (ts : List Token) : (mode.kept ts).Sublist ts := by
  unfold kept
  split
  · exact List.filter_sublist
  · exact List.nil_sublist ts

/-- Blank comments are not kept. -/
theorem isEmpty_of_mem_kept {ts : List Token} {t : Token} (h : t ∈ mode.kept ts) :
    t.text.isEmpty = false := by
  unfold kept at h
  split at h
  · simpa using (List.mem_filter.mp h).2
  · cases h

end Mode

/-- The comment that a token becomes in front of a declaration on a line. -/
def frontComment (line : Nat) (t : Token) : Comment :=
  ⟨if t.endLine + 1 < line then .detached else .leading, t.text⟩

/-- The comment that a token becomes behind a declaration. -/
def backComment (t : Token) : Comment :=
  ⟨.trailing, t.text⟩

theorem frontComment_kind_ne (line : Nat) (t : Token) : (frontComment line t).kind ≠ .trailing := by
  unfold frontComment
  split <;> simp

/-- A comment in front is leading if it ends on the line above or later. -/
theorem frontComment_leading_iff (line : Nat) (t : Token) :
    (frontComment line t).kind = .leading ↔ line ≤ t.endLine + 1 := by
  unfold frontComment
  by_cases hgap : t.endLine + 1 < line
  · simp [hgap]
  · simp only [hgap, if_false, true_iff]
    omega

/-- The place without the comments that wait there. -/
def Cursor.cleared (c : Cursor) : Cursor :=
  { c with passed := [], fresh := [] }

/-- All comments that wait are taken, and those that are kept are told apart by their distance. -/
theorem takeComments_run (mode : Mode) (c : Cursor) :
    takeComments mode c =
      .ok ((mode.kept (c.passed ++ c.fresh)).map (frontComment c.next.pos.line)) c.cleared := by
  unfold takeComments Mode.kept commentsBefore
  split <;> rfl

theorem trailingComment_eq (mode : Mode) (t : Token) :
    trailingComment mode t = (mode.kept [t]).map backComment := by
  unfold trailingComment Mode.kept backComment
  by_cases hcomments : mode.comments = true
  · by_cases htext : t.text.isEmpty = true
    · simp [hcomments, htext]
    · simp [hcomments, htext]
  · simp [hcomments]

/-- The comment token that is taken at the end of a declaration, if there is one. It is behind the
last token, on its line. -/
structure TakesBehind (mode : Mode) (e d : Cursor) (found : List Comment)
    (back : List Token) : Prop where
  few : back.length ≤ 1
  line : ∀ t ∈ back, t ∈ e.fresh ∧ t.pos.line = e.lastLine
  comments : found = (mode.kept back).map backComment
  tokens : d.tokens = e.tokens
  pool : ∀ t, back.count t + d.pool.count t ≤ e.pool.count t

/-- At most one comment is taken behind a sign, and it is one that stands on its line. -/
theorem exists_taken {e d : Cursor} {found : List Comment} (h : takeTrailing mode e = .ok found d) :
    ∃ back, TakesBehind mode e d found back := by
  rcases takeTrailing_cases mode e with hrun | ⟨t, fresh, hfresh, hline, hrun⟩
  · rw [hrun] at h
    cases h
    refine ⟨[], by simp, by simp, by simp [Mode.kept], rfl, fun u => ?_⟩
    simp only [Cursor.pool, List.count_append, List.count_nil]
    omega
  · rw [hrun] at h
    cases h
    refine ⟨[t], by simp, by simp [hfresh, hline], trailingComment_eq mode t, rfl, fun u => ?_⟩
    simp only [Cursor.pool, hfresh, List.count_append, List.count_cons, List.count_nil]
    omega

/-- What is inside a declaration is read from one place to another one, where the comment behind the
declaration is taken. -/
structure Ends (mode : Mode) (stream : TokenStream) (m e d : Cursor) (found : List Comment)
    (ledger : List Record) : Prop where
  forward : Forward m e
  within : e.Within stream
  booked : Booked mode stream m e ledger
  trailing : takeTrailing mode e = .ok found d

/-- The part of a declaration behind its first token. -/
structure Concludes (mode : Mode) (stream : TokenStream)
    (post : α → List Comment → List Element → Prop) (p : Parser α) : Prop where
  run : ∀ m a d, m.Within stream → p m = .ok a d → ∃ e found ledger,
    Ends mode stream m e d found ledger ∧ post a found (ledger.map Record.element)

namespace Concludes

variable {p : Parser α} {f : α → Parser β} {post : β → List Comment → List Element → Prop}

theorem bind {mid : α → List Element → Prop} (hp : Books mode stream mid p)
    (hf : ∀ a ds, mid a ds →
      Concludes mode stream (fun b found ds' => post b found (ds ++ ds')) (f a)) :
    Concludes mode stream post (p >>= f) where
  run c b d hc hrun := by
    obtain ⟨a, m, hfirst, hsecond⟩ := bind_ok_iff.mp hrun
    obtain ⟨hm, forth, ledger, booked, hmid⟩ := hp.run c a m hc hfirst
    obtain ⟨e, found, others, ends, hpost⟩ := (hf a _ hmid).run m b d hm hsecond
    refine ⟨e, found, ledger ++ others, ?_, List.map_append ▸ hpost⟩
    exact ⟨forth.trans ends.forward, ends.within, booked.append ends.booked, ends.trailing⟩

theorem andThen (hp : Steady p) (hf : ∀ a, Concludes mode stream post (f a)) :
    Concludes mode stream post (p >>= f) := by
  have first : Books mode stream (fun _ ds => ds = []) p := .steady hp fun _ _ _ _ => rfl
  exact bind first fun a _ hnone => hnone ▸ hf a

theorem done {g : List Comment → β} (h : ∀ found, post (g found) found []) :
    Concludes mode stream post (takeTrailing mode >>= fun found => pure (g found)) where
  run m b d hm hrun := by
    obtain ⟨found, d', htrailing, hrun⟩ := bind_ok_iff.mp hrun
    cases hrun
    exact ⟨m, found, [], ⟨.refl m, hm, .nothing .refl, htrailing⟩, h found⟩

end Concludes

/-- A declaration behind the comments in front of it. -/
structure Opens (mode : Mode) (stream : TokenStream) (post : α → List Comment → List Element → Prop)
    (p : Parser α) : Prop where
  run : ∀ c a d, c.Within stream → p c = .ok a d → ∃ m e found ledger,
    Cursor.Steps c m ∧ m.rest.length < c.rest.length ∧ Ends mode stream m e d found ledger ∧
      post a found (ledger.map Record.element)

namespace Opens

variable {p : Parser α} {f : α → Parser β} {post : β → List Comment → List Element → Prop}

theorem andThen (hp : Steady p) (hf : ∀ a, Opens mode stream post (f a)) :
    Opens mode stream post (p >>= f) where
  run c b d hc hrun := by
    obtain ⟨a, c', hfirst, hsecond⟩ := bind_ok_iff.mp hrun
    have steps := hp.steps_of_ok hfirst
    obtain ⟨m, e, found, ledger, hsteps, hless, ends, hpost⟩ :=
      (hf a).run c' b d (steps.within hc) hsecond
    have := steps.forward.length_le
    exact ⟨m, e, found, ledger, .trans steps hsteps, by omega, ends, hpost⟩

/-- The first token is consumed, and then what is inside the declaration can follow. -/
theorem eat {mid : α → Prop} (hp : Marches Anywhere true False Anywhere mid p)
    (hf : ∀ a, Concludes mode stream post (f a)) :
    Opens mode stream post (p >>= f) where
  run c b d hc hrun := by
    obtain ⟨a, m, hfirst, hsecond⟩ := bind_ok_iff.mp hrun
    have steps := hp.steady.steps_of_ok hfirst
    obtain ⟨e, found, ledger, ends, hpost⟩ := (hf a).run m b d (steps.within hc) hsecond
    exact ⟨m, e, found, ledger, steps, hp.moves c a m True.intro hfirst, ends, hpost⟩

end Opens

namespace Cursor.Within

variable {c : Cursor} {t u : Token}

theorem mem_of_waiting (hc : c.Within stream) (ht : t ∈ c.passed ++ c.fresh) : t ∈ stream.tokens :=
  hc.pool.subset (List.mem_append_left _ ht)

/-- The comments that wait are in front of the tokens that are left. -/
theorem before (hc : c.Within stream) (ht : t ∈ c.passed ++ c.fresh) (hu : u ∈ c.tokens) :
    t.pos.Before u.pos := by
  obtain ⟨l, hl, rfl⟩ := List.mem_map.mp hu
  have hall : l.token ∈ c.rest.flatMap Lexeme.all :=
    List.mem_flatMap.mpr ⟨l, hl, List.mem_cons_self⟩
  exact (List.pairwise_append.mp (hc.ordered.pairwise.sublist hc.pool)).2.2 t ht l.token hall

/-- Those that came last are behind the token that was consumed last, which ends on the line that is
known. -/
theorem behind (hc : c.Within stream) {ts : List Token} {last : Token}
    (htokens : stream.uncommented.tokens = ts ++ last :: c.tokens) :
    c.lastLine = last.pos.line ∧ ∀ t ∈ c.fresh, last.pos.Before t.pos := by
  obtain ⟨hline, hsub⟩ := hc.last ts last htokens
  have hlast : last ∈ stream.uncommented.tokens := by simp [htokens]
  obtain ⟨hmem, hkind⟩ := List.mem_filter.mp hlast
  refine ⟨hline.trans (hc.ordered.line last hmem (by simpa using hkind)), ?_⟩
  exact fun t ht => List.rel_of_pairwise_cons (hc.ordered.pairwise.sublist hsub) ht

end Cursor.Within

/-- The tokens between two places, of which there is at least one. -/
theorem Forward.exists_tokens {c e : Cursor} (h : Forward c e)
    (hless : e.rest.length < c.rest.length) :
    ∃ ts last, c.tokens = ts ++ last :: e.tokens ∧ (ts ++ [last]).head? = some c.next := by
  obtain ⟨all, hall⟩ := h.tokens
  cases all using List.reverseRecOn with
  | nil =>
      have hlength := congrArg List.length hall
      rw [List.nil_append, e.length_tokens, c.length_tokens] at hlength
      omega
  | append_singleton ts last =>
      refine ⟨ts, last, by rw [← hall, List.append_assoc, List.singleton_append], ?_⟩
      rw [c.next_eq, ← hall, List.head?_append]
      cases ts <;> rfl

/-- The comments that wait in front of a declaration become its leading and detached ones. -/
theorem attached_before {c : Cursor} (hc : c.Within stream) (hnext : c.next ∈ c.tokens)
    (last : Token) :
    List.Forall₂ (Attached stream c.next last) (mode.kept (c.passed ++ c.fresh))
      ((mode.kept (c.passed ++ c.fresh)).map (frontComment c.next.pos.line)) := by
  rw [List.forall₂_map_right_iff, List.forall₂_same]
  intro t ht
  have hwait := (mode.kept_sublist _).subset ht
  refine ⟨hc.mem_of_waiting hwait, hc.waiting t hwait, Mode.isEmpty_of_mem_kept ht, rfl,
    fun _ => ?_, ?_⟩
  · exact ⟨hc.before hwait hnext, frontComment_leading_iff _ t⟩
  · exact fun hkind => absurd hkind (frontComment_kind_ne _ t)

/-- The comment that is taken at the end of a declaration becomes its trailing one. -/
theorem attached_behind {e d : Cursor} {found : List Comment} {back : List Token}
    (he : e.Within stream)
    (taken : TakesBehind mode e d found back) {ts : List Token} {last : Token}
    (htokens : stream.uncommented.tokens = ts ++ last :: e.tokens) (first : Token) :
    List.Forall₂ (Attached stream first last) (mode.kept back) found := by
  rw [taken.comments, List.forall₂_map_right_iff, List.forall₂_same]
  intro t ht
  obtain ⟨hfresh, hline⟩ := taken.line t ((mode.kept_sublist back).subset ht)
  have hwait := List.mem_append_right e.passed hfresh
  obtain ⟨hlast, hbehind⟩ := he.behind htokens
  refine ⟨he.mem_of_waiting hwait, he.waiting t hwait, Mode.isEmpty_of_mem_kept ht, rfl,
    ?_, fun _ => ?_⟩
  · exact fun hkind => absurd rfl hkind
  · exact ⟨hbehind t hfresh, hline.trans hlast⟩

/-- At most one comment of a declaration is a trailing one. -/
theorem countP_trailing_le_one {e d : Cursor} {found : List Comment} {back : List Token}
    (taken : TakesBehind mode e d found back) (line : Nat) (front : List Token) :
    (front.map (frontComment line) ++ found).countP (·.kind = .trailing) ≤ 1 := by
  have hfront : (front.map (frontComment line)).countP (·.kind = .trailing) = 0 := by
    refine List.countP_eq_zero.mpr fun comment hmem => ?_
    obtain ⟨t, -, rfl⟩ := List.mem_map.mp hmem
    simpa using frontComment_kind_ne line t
  rw [List.countP_append, hfront, Nat.zero_add]
  calc found.countP (·.kind = .trailing) ≤ found.length := List.countP_le_length
    _ = (mode.kept back).length := by rw [taken.comments, List.length_map]
    _ ≤ back.length := (mode.kept_sublist back).length_le
    _ ≤ 1 := taken.few

section Entry

variable {c m e d : Cursor} {found : List Comment} {back : List Token} {ledger : List Record}

/-- The entry of a declaration with the comments in front of it and the one behind it. -/
theorem exists_faithful (hc : c.Within stream) (hsteps : Cursor.Steps c.cleared m)
    (hless : m.rest.length < c.rest.length) (ends : Ends mode stream m e d found ledger)
    (taken : TakesBehind mode e d found back) {decl : Element} (hread : IsReadBetween mode c d decl)
    (hcomments :
      decl.comments = (mode.kept (c.passed ++ c.fresh)).map (frontComment c.next.pos.line) ++
        found) :
    ∃ last, Record.Faithful mode stream
      ⟨decl, c.next, last, mode.kept (c.passed ++ c.fresh) ++ mode.kept back⟩ := by
  have forth : Forward c e :=
    Forward.trans ⟨hsteps.forward.tokens, hsteps.forward.stop⟩ ends.forward
  obtain ⟨ts, last, htokens, hhead⟩ := forth.exists_tokens (ends.forward.length_le.trans_lt hless)
  obtain ⟨front, hfront⟩ := hc.isIn.tokens
  have hlast : stream.uncommented.tokens = (front ++ ts) ++ last :: e.tokens := by
    rw [← hfront, htokens, List.append_assoc]
  have hall : c.tokens = (ts ++ [last]) ++ e.tokens := by
    rw [htokens, List.append_assoc, List.singleton_append]
  have hnext : c.next ∈ c.tokens := hall ▸ List.mem_append_left _ (List.mem_of_mem_head? hhead)
  refine ⟨last, ⟨c, d, ts ++ [last], hc.isIn, hread, taken.tokens ▸ hall, hhead,
    List.getLast?_concat ..⟩, ?_, ?_⟩
  · show List.Forall₂ _ _ decl.comments
    rw [hcomments]
    exact List.rel_append (attached_before hc hnext last)
      (attached_behind ends.within taken hlast c.next)
  · show decl.comments.countP _ ≤ 1
    rw [hcomments]
    exact countP_trailing_le_one taken _ _

/-- What the entry holds was in the pool, and is in it no more. -/
theorem held_count_le (hsteps : Cursor.Steps c.cleared m) (hless : m.rest.length < c.rest.length)
    (ends : Ends mode stream m e d found ledger) (taken : TakesBehind mode e d found back)
    (t : Token) :
    [c.next].count t + (mode.kept (c.passed ++ c.fresh) ++ mode.kept back).count t +
      (ledger.flatMap Record.held).count t + d.pool.count t ≤ c.pool.count t := by
  -- What waits goes to the entry, then the first token, then what is inside, and last the comment
  -- behind.
  have hpool : c.pool.count t = (c.passed ++ c.fresh).count t + c.cleared.pool.count t :=
    List.count_append
  have hfront := (mode.kept_sublist (c.passed ++ c.fresh)).count_le t
  have hfirst : [c.next].count t + m.pool.count t ≤ c.cleared.pool.count t :=
    hsteps.count_next hless t
  have hinside := ends.booked.held t
  have hback := (mode.kept_sublist back).count_le t
  have hbehind := taken.pool t
  rw [List.count_append]
  omega

end Entry

/-- A declaration is entered with its comments, and what is inside it beside it. -/
theorem Books.declaration (D : α → Element) (parts : α → List Element) {p : List Comment → Parser α}
    (hp : ∀ before, Opens mode stream
      (fun a found ds => (D a).comments = before ++ found ∧ ds.Perm (parts a)) (p before))
    (hread : ∀ c a d, (takeComments mode >>= p) c = .ok a d → IsReadBetween mode c d (D a)) :
    Books mode stream (fun a ds => ds.Perm (D a :: parts a)) (takeComments mode >>= p) where
  run c a d hc hrun := by
    obtain ⟨before, start, htake, hinside⟩ := bind_ok_iff.mp hrun
    have hclear : Cursor.Steps c start := (Steady.takeComments mode).steps_of_ok htake
    rw [takeComments_run] at htake
    cases htake
    obtain ⟨m, e, found, ledger, hsteps, hless, ends, hcomments, hparts⟩ :=
      (hp _).run _ a d (hclear.within hc) hinside
    obtain ⟨back, taken⟩ := exists_taken ends.trailing
    obtain ⟨last, faithful⟩ :=
      exists_faithful hc hsteps hless ends taken (hread c a d hrun) hcomments
    have hend : Cursor.Steps e d := (Steady.takeTrailing mode).steps_of_ok ends.trailing
    have forth : Forward c d :=
      ((hclear.forward.trans hsteps.forward).trans ends.forward).trans hend.forward
    refine ⟨hend.within ends.within, forth,
      ⟨D a, c.next, last, mode.kept (c.passed ++ c.fresh) ++ mode.kept back⟩ :: ledger,
      ⟨?_, fun t => ?_⟩,
      hparts.cons (D a)⟩
    · exact List.forall_mem_cons.mpr ⟨faithful, ends.booked.faithful⟩
    · have held := held_count_le hsteps hless ends taken t
      rw [List.flatMap_cons, Record.held, ← List.singleton_append, List.count_append,
        List.count_append]
      omega

end Grammar

end ProtoRoutes
