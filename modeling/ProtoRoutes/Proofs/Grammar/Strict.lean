import Mathlib.Data.List.Nodup
import ProtoRoutes.Proofs.Grammar.Runs

/-!
# ProtoRoutes.Proofs.Grammar.Strict

**Strict reading is lenient reading and a test of the tree.** What strict mode checks is spread over
the grammar: each loop compares a new name with those it has read, the rule of field numbers
compares with the limits, and a message compares its fields with its reserved statements when its
block ends. `SchemaFile.Valid` says all of it about the tree alone.

The proof goes through one relation. `Filters pre test p q` says that `p`, started where `pre`
holds, succeeds exactly like `q` with a result that passes `test`. It composes along sequences
(`Filters.bind`) and along loops (`Filters.iterate`), where the test of the result is also what is
known before the next step. Every rule then needs only the equivalence of its own last step: the new
tree is valid if and only if the old one was and the check did not object.
-/

namespace ProtoRoutes

/-! ### Valid trees -/

/-- A field number that strict mode accepts. -/
def Field.InRange (f : Field) : Prop :=
  1 ≤ f.number ∧ f.number ≤ Grammar.maxFieldNumber

/-- The values of an enum have different names. -/
def Enumeration.Valid (e : Enumeration) : Prop :=
  (e.values.map (·.name)).Nodup

/-- The methods of a service have different names. -/
def Service.Valid (s : Service) : Prop :=
  (s.methods.map (·.name)).Nodup

namespace Message

/-- The names that are declared in a message: its fields, those of its oneofs included, its oneofs
and its nested types. -/
def scope (m : Message) : List String :=
  m.fields.map (·.name) ++ m.oneofs.map (·.name) ++ m.messages.map (·.name) ++ m.enums.map (·.name)

/-- The declarations of a message do not get into each other's way. -/
structure Declared (m : Message) : Prop where
  scope : m.scope.Nodup
  numbers : (m.fields.map (·.number)).Nodup
  range : ∀ f ∈ m.fields, f.InRange
  enums : ∀ e ∈ m.enums, e.Valid

/-- No field of a message has a name or a number that the message reserves. -/
structure Unreserved (m : Message) : Prop where
  names : ∀ f ∈ m.fields, f.name ∉ m.reservedNames
  numbers : ∀ f ∈ m.fields, ∀ r ∈ m.reservedRanges, r.has f.number = false

/-- A message that strict mode accepts, with everything that is nested in it. -/
inductive Valid : Message → Prop where
  | intro {m : Message} (declared : m.Declared) (unreserved : m.Unreserved)
      (nested : ∀ n ∈ m.messages, n.Valid) : m.Valid

end Message

/-- The names that are defined at the top level of a file. -/
def SchemaFile.scope (f : SchemaFile) : List String :=
  f.services.map (·.name) ++ f.messages.map (·.name) ++ f.enums.map (·.name)

/-- A file that strict mode accepts. -/
structure SchemaFile.Valid (f : SchemaFile) : Prop where
  scope : f.scope.Nodup
  services : ∀ s ∈ f.services, s.Valid
  messages : ∀ m ∈ f.messages, m.Valid
  enums : ∀ e ∈ f.enums, e.Valid

namespace Grammar

variable {α β σ : Type}

/-! ### Filters -/

/-- Where `pre` holds, `p` succeeds exactly when `q` does with a result that passes `test`, and in
the same way. -/
def Filters (pre : Prop) (test : α → Prop) (p q : Parser α) : Prop :=
  ∀ c a d, pre ∧ p c = .ok a d ↔ q c = .ok a d ∧ test a

namespace Filters

/-- A rule that does not look at the mode filters nothing out. -/
theorem same (pre : Prop) (p : Parser α) : Filters pre (fun _ => pre) p p :=
  fun _ _ _ => and_comm

/-- Rules that never succeed filter each other. -/
theorem never {pre : Prop} {test : α → Prop} {p q : Parser α} (hp : ∀ c a d, p c ≠ .ok a d)
    (hq : ∀ c a d, q c ≠ .ok a d) : Filters pre test p q :=
  fun c a d => ⟨fun h => absurd h.2 (hp c a d), fun h => absurd h.1 (hq c a d)⟩

theorem fail {pre : Prop} {test : α → Prop} {e e' : SchemaError} :
    Filters pre test (Grammar.fail e) (Grammar.fail e') :=
  never (fun _ _ _ h => nomatch h) (fun _ _ _ h => nomatch h)

/-- A result passes if what was required so far says the same as the test. -/
theorem pure {pre : Prop} {test : α → Prop} {a : α} (h : pre ↔ test a) :
    Filters pre test (Pure.pure a) (Pure.pure a) := by
  intro c b d
  simp only [pure_run, EStateM.Result.ok.injEq]
  constructor
  · rintro ⟨hpre, rfl, rfl⟩
    exact ⟨⟨rfl, rfl⟩, h.mp hpre⟩
  · rintro ⟨⟨rfl, rfl⟩, htest⟩
    exact ⟨h.mpr htest, rfl, rfl⟩

/-- In a sequence, what the first lenient part ensures is known to the second parts. -/
theorem bindKnown {pre : Prop} {test known : α → Prop} {test' : β → Prop} {p q : Parser α}
    {f g : α → Parser β} (hp : Filters pre test p q) (hq : Ensures known q)
    (hf : ∀ a, known a → Filters (test a) test' (f a) (g a)) :
    Filters pre test' (p >>= f) (q >>= g) := by
  intro c b e
  simp only [bind_ok_iff]
  constructor
  · rintro ⟨hpre, a, d, ha, hb⟩
    obtain ⟨hqa, hta⟩ := (hp c a d).mp ⟨hpre, ha⟩
    obtain ⟨hgb, htb⟩ := (hf a (hq c a d hqa) d b e).mp ⟨hta, hb⟩
    exact ⟨⟨a, d, hqa, hgb⟩, htb⟩
  · rintro ⟨⟨a, d, hqa, hgb⟩, htb⟩
    obtain ⟨hta, hb⟩ := (hf a (hq c a d hqa) d b e).mpr ⟨hgb, htb⟩
    obtain ⟨hpre, ha⟩ := (hp c a d).mpr ⟨hqa, hta⟩
    exact ⟨hpre, a, d, ha, hb⟩

/-- The test of the first part is what the second one starts from. -/
theorem bind {pre : Prop} {test : α → Prop} {test' : β → Prop} {p q : Parser α}
    {f g : α → Parser β} (hp : Filters pre test p q)
    (hf : ∀ a, Filters (test a) test' (f a) (g a)) :
    Filters pre test' (p >>= f) (q >>= g) :=
  hp.bindKnown (.trivial q) fun a _ => hf a

/-- A rule that is the same on both sides, and what follows it. -/
theorem andThen {pre : Prop} {test : β → Prop} (p : Parser α) {f g : α → Parser β}
    (hf : ∀ a, Filters pre test (f a) (g a)) : Filters pre test (p >>= f) (p >>= g) :=
  (same pre p).bind hf

/-- What is known before a rule stays known behind it. -/
theorem frame {test : α → Prop} {p q : Parser α} (h : Filters True test p q) (pre : Prop) :
    Filters pre (fun a => pre ∧ test a) p q := by
  intro c a d
  have key := h c a d
  rw [true_and] at key
  rw [key]
  exact and_left_comm

/-- Conditions may be put in other words, with what is known of the lenient result. -/
theorem congr {pre pre' : Prop} {test test' known : α → Prop} {p q : Parser α}
    (h : Filters pre test p q) (hq : Ensures known q) (hpre : pre' ↔ pre)
    (htest : ∀ a, known a → (test a ↔ test' a)) : Filters pre' test' p q := by
  intro c a d
  rw [hpre, h c a d]
  exact and_congr_right fun ha => htest a (hq c a d ha)

theorem congrLeft {pre pre' : Prop} {test : α → Prop} {p q : Parser α} (h : Filters pre test p q)
    (hpre : pre' ↔ pre) : Filters pre' test p q :=
  h.congr (.trivial q) hpre fun _ _ => Iff.rfl

/-- A loop filters if every step does, with one test for what the loop carries. What every lenient
step keeps is known before each step. -/
theorem iterateFor {inv test : σ → Prop} {more : Token → Bool} {step step' : σ → Token → Parser σ}
    (hinv : ∀ s t, inv s → Ensures inv (step' s t))
    (h : ∀ s t, inv s → Filters (test s) test (step s t) (step' s t)) (n : Nat)
    (s : σ) (hs : inv s) :
    Filters (test s) test (Grammar.iterateFor more step n s)
      (Grammar.iterateFor more step' n s) := by
  induction n generalizing s with
  | zero => exact never (fun c a d heq => nomatch heq) (fun c a d heq => nomatch heq)
  | succ n ih =>
      intro c a d
      simp only [iterateFor_succ]
      by_cases hmore : more c.next = true
      · simp only [hmore, if_true]
        exact (h s c.next hs).bindKnown (hinv s c.next hs) ih c a d
      · simp only [hmore]
        exact pure Iff.rfl c a d

/-- A loop filters what its steps filter, while an invariant is known of the lenient states. -/
theorem iterateKnown {inv test : σ → Prop} {more : Token → Bool}
    {step step' : σ → Token → Parser σ} (hinv : ∀ s t, inv s → Ensures inv (step' s t))
    (h : ∀ s t, inv s → Filters (test s) test (step s t) (step' s t)) {s : σ} (hs : inv s) :
    Filters (test s) test (Grammar.iterate more step s) (Grammar.iterate more step' s) :=
  fun c a d => iterateFor hinv h _ s hs c a d

theorem iterate {test : σ → Prop} {more : Token → Bool} {step step' : σ → Token → Parser σ}
    (h : ∀ s t, Filters (test s) test (step s t) (step' s t)) (s : σ) :
    Filters (test s) test (Grammar.iterate more step s) (Grammar.iterate more step' s) :=
  iterateKnown (fun _ _ _ => .trivial _) (fun s t _ => h s t) True.intro

/-- The check for a second definition is a filter by itself: it succeeds if there is no first one.
-/
theorem declare {pre : Prop} {comments taken : Bool} {what : Definition} {line : Nat} :
    Filters pre (fun _ => pre ∧ taken = false) (Grammar.declare ⟨true, comments⟩ taken what line)
      (Grammar.declare ⟨false, comments⟩ taken what line) := by
  intro c u d
  cases taken with
  | false => simp [Grammar.declare, and_comm]
  | true => simp [Grammar.declare, Grammar.fail]

end Filters

/-! ### Names that are added to a list -/

/-- A list with one element more has different keys if it had before and none of them is the new
one. -/
theorem nodup_map_concat_iff {κ : Type} [DecidableEq κ] (key : α → κ) (l : List α) (a : α) :
    ((l ++ [a]).map key).Nodup ↔ (l.map key).Nodup ∧ l.any (key · = key a) = false := by
  have fresh : l.any (key · = key a) = false ↔ key a ∉ l.map key := by
    simp only [List.any_eq_false, decide_eq_true_eq, List.mem_map, not_exists, not_and]
  have perm : (l.map key ++ [key a]).Perm (key a :: l.map key) := List.perm_append_singleton ..
  rw [fresh, List.map_append, List.map_singleton, perm.nodup_iff, List.nodup_cons, and_comm]

/-- Where keys are different, a search by key finds the element with this key. -/
theorem find?_key_eq_some_iff {κ : Type} [DecidableEq κ] {key : α → κ} {l : List α}
    (hkeys : (l.map key).Nodup) {k : κ} {a : α} : l.find? (key · = k) = some a ↔ a ∈ l ∧
      key a = k := by
  have found {b : α} (h : l.find? (key · = k) = some b) : b ∈ l ∧ key b = k :=
    ⟨List.mem_of_find?_eq_some h, by simpa using List.find?_some h⟩
  refine ⟨found, fun ⟨ha, hk⟩ => ?_⟩
  cases hfound : l.find? (key · = k) with
  | none => exact absurd hk (by simpa using List.find?_eq_none.mp hfound a ha)
  | some b =>
      obtain ⟨hb, hkb⟩ := found hfound
      rw [List.inj_on_of_nodup_map hkeys hb ha (hkb.trans hk.symm)]

/-- A name is not declared if it is none of the declared names. -/
theorem lookup_isSome_eq_false_iff (l : List (String × Nat)) (name : String) :
    (l.lookup name).isSome = false ↔ name ∉ l.map Prod.fst := by
  rw [Option.isSome_eq_false_iff, Option.isNone_iff_eq_none, List.lookup_eq_none_iff]
  simp only [List.mem_map, not_exists, not_and, bne_iff_ne, ne_eq]
  exact forall₂_congr fun p _ => not_congr eq_comm

/-! ### Services -/

/-- A step in a service is refused in strict mode exactly if the service is not valid any more. -/
theorem serviceItem_filters (comments : Bool) (s : Service) (t : Token) :
    Filters s.Valid Service.Valid (serviceItem ⟨true, comments⟩ s t)
      (serviceItem ⟨false, comments⟩ s t) := by
  unfold serviceItem
  split
  · refine .andThen (method ⟨true, comments⟩) fun m => ?_
    refine Filters.declare.bind fun _ => .pure ?_
    exact (nodup_map_concat_iff (·.name) s.methods m).symm
  · exact .andThen (optionStatement ⟨true, comments⟩ maxDepth) fun o => .pure Iff.rfl
  · exact .andThen advance fun _ => .pure Iff.rfl
  · exact .fail

/-- Strict mode lets pass the services with different method names. -/
theorem service_filters (comments : Bool) :
    Filters True Service.Valid (service ⟨true, comments⟩) (service ⟨false, comments⟩) := by
  unfold service
  refine .andThen (takeComments ⟨true, comments⟩) fun before => ?_
  refine .andThen (expectKeyword .serviceKw) fun _ => ?_
  refine .andThen (expectName .serviceName) fun name => ?_
  refine .andThen (expectSign .lbrace) fun _ => ?_
  have start : True ↔ Service.Valid ⟨name.text, [], [], before⟩ := by simp [Service.Valid]
  refine ((Filters.iterate (serviceItem_filters comments) _).congrLeft start).bind
    fun s => ?_
  refine .andThen (expectSign .rbrace) fun _ => ?_
  exact .andThen (takeTrailing ⟨true, comments⟩) fun behind => .pure Iff.rfl

/-! ### Enums -/

theorem enumItem_filters (comments : Bool) (room : Nat) (e : Enumeration) (t : Token) :
    Filters e.Valid Enumeration.Valid (enumItem ⟨true, comments⟩ room e t)
      (enumItem ⟨false, comments⟩ room e t) := by
  unfold enumItem
  split
  · exact .andThen (optionStatement ⟨true, comments⟩ room) fun o => .pure Iff.rfl
  · exact .andThen (reserved ⟨true, comments⟩ maxEnumNumber) fun r => .pure Iff.rfl
  · exact .andThen advance fun _ => .pure Iff.rfl
  · exact .fail
  · refine .andThen (enumValue ⟨true, comments⟩ room) fun v => ?_
    refine Filters.declare.bind fun _ => .pure ?_
    exact (nodup_map_concat_iff (·.name) e.values v).symm

/-- Strict mode lets pass the enums with different value names. -/
theorem enumeration_filters (comments : Bool) (room : Nat) :
    Filters True Enumeration.Valid (enumeration ⟨true, comments⟩ room)
      (enumeration ⟨false, comments⟩ room) := by
  unfold enumeration
  refine .andThen (takeComments ⟨true, comments⟩) fun before => ?_
  refine .andThen (expectKeyword .enumKw) fun _ => ?_
  refine .andThen (expectName .enumName) fun name => ?_
  refine .andThen (expectSign .lbrace) fun _ => ?_
  have start : True ↔ Enumeration.Valid ⟨name.text, [], [], before, [], []⟩ := by
    simp [Enumeration.Valid]
  refine ((Filters.iterate (enumItem_filters comments room) _).congrLeft start).bind
    fun e => ?_
  refine .andThen (expectSign .rbrace) fun _ => ?_
  exact .andThen (takeTrailing ⟨true, comments⟩) fun behind => .pure Iff.rfl

/-! ### Fields and oneofs -/

/-- Strict mode lets pass the numbers in range. -/
theorem fieldNumber_filters (comments : Bool) :
    Filters True (fun n => 1 ≤ n ∧ n ≤ maxFieldNumber) (fieldNumber ⟨true, comments⟩)
      (fieldNumber ⟨false, comments⟩) := by
  unfold fieldNumber
  refine .andThen (expectKind .number .fieldNumber) fun t => ?_
  split
  · exact .fail
  · rename_i n _
    by_cases hn : 1 ≤ n ∧ n ≤ maxFieldNumber
    · simp only [hn, decide_true, Bool.and_self, Bool.not_true, Bool.and_false, Bool.false_eq_true,
        if_false]
      exact .pure (by simp [hn])
    · intro c a d
      have out : (!(decide (1 ≤ n) && decide (n ≤ maxFieldNumber))) = true := by
        rw [← Bool.decide_and, decide_eq_false hn, Bool.not_false]
      simp only [out, Bool.and_self, Bool.false_and, Bool.false_eq_true, if_true,
        if_false, true_and]
      constructor
      · intro h
        exact nomatch h
      · rintro ⟨h, ha⟩
        rw [pure_run, EStateM.Result.ok.injEq] at h
        exact absurd (h.1 ▸ ha) hn

/-- Of a field only its number is checked. -/
theorem field_filters (comments : Bool) (room : Nat) (oneof : Option String) :
    Filters True Field.InRange (field ⟨true, comments⟩ room oneof)
      (field ⟨false, comments⟩ room oneof) := by
  unfold field
  refine .andThen (takeComments ⟨true, comments⟩) fun before => ?_
  refine .andThen (fieldLabel oneof.isSome) fun label => ?_
  refine .andThen (fieldType label) fun type => ?_
  refine .andThen (expectName .fieldName) fun name => ?_
  refine .andThen (expectSign .equals) fun _ => ?_
  refine (fieldNumber_filters comments).bind fun number => ?_
  refine .andThen (inlineOptions room) fun options => ?_
  refine .andThen (expectSign .semicolon) fun _ => ?_
  exact .andThen (takeTrailing ⟨true, comments⟩) fun behind => .pure Iff.rfl

theorem oneofItem_filters (comments : Bool) (room : Nat) (o : Oneof) (t : Token) :
    Filters (∀ f ∈ o.fields, f.InRange) (fun o => ∀ f ∈ o.fields, f.InRange)
      (oneofItem ⟨true, comments⟩ room o t) (oneofItem ⟨false, comments⟩ room o t) := by
  unfold oneofItem
  split
  · exact .andThen (optionStatement ⟨true, comments⟩ room) fun opt => .pure Iff.rfl
  · exact .andThen advance fun _ => .pure Iff.rfl
  · exact .fail
  · exact ((field_filters comments room (some o.name)).frame _).bind fun f =>
      .pure forall_mem_concat_iff.symm

theorem oneofGroup_filters (comments : Bool) (room : Nat) :
    Filters True (fun o => ∀ f ∈ o.fields, f.InRange) (oneofGroup ⟨true, comments⟩ room)
      (oneofGroup ⟨false, comments⟩ room) := by
  unfold oneofGroup
  refine .andThen (takeComments ⟨true, comments⟩) fun before => ?_
  refine .andThen (expectKeyword .oneofKw) fun _ => ?_
  refine .andThen (expectName .oneofName) fun name => ?_
  refine .andThen (expectSign .lbrace) fun _ => ?_
  have start : True ↔ ∀ f ∈ (Oneof.mk name.text [] [] before).fields, f.InRange := by simp
  refine ((Filters.iterate (oneofItem_filters comments room) _).congrLeft start).bind
    fun o => ?_
  refine .andThen (expectSign .rbrace) fun _ => ?_
  exact .andThen (takeTrailing ⟨true, comments⟩) fun behind => .pure Iff.rfl

/-! ### Drafts

The names of a draft are kept twice: in the message, and with their lines in `declared`. Validity
reads the first and the checks read the second. `Draft.Named` says that both are the same names;
every step keeps it, in every mode. -/

namespace Draft

/-- The declared names of a draft are those of its message. -/
def Named (d : Draft) : Prop :=
  (d.declared.map Prod.fst).Perm d.message.scope

/-- What was read into a draft is valid, apart from its reserved statements. -/
def Sound (d : Draft) : Prop :=
  d.message.Declared ∧ ∀ n ∈ d.message.messages, n.Valid

/-- The draft with a declared name. -/
def withName (line : Nat) (d : Draft) (name : String) : Draft :=
  { d with declared := (name, line) :: d.declared }

/-- The draft with a nested message. -/
def withMessage (d : Draft) (m : Message) : Draft :=
  { d with message := { d.message with messages := d.message.messages ++ [m] } }

/-- The draft with a nested enum. -/
def withEnum (d : Draft) (e : Enumeration) : Draft :=
  { d with message := { d.message with enums := d.message.enums ++ [e] } }

/-- The draft with a field. -/
def withField (d : Draft) (f : Field) : Draft :=
  { d with message := { d.message with fields := d.message.fields ++ [f] } }

/-- The draft with a oneof. -/
def withOneof (d : Draft) (o : Oneof) : Draft :=
  { d with message := { d.message with oneofs := d.message.oneofs ++ [o] } }

theorem scope_withMessage (d : Draft) (m : Message) :
    (d.withMessage m).message.scope.Perm (m.name :: d.message.scope) := by
  simp only [withMessage, Message.scope, List.map_append, List.map_singleton]
  grind

theorem scope_withEnum (d : Draft) (e : Enumeration) :
    (d.withEnum e).message.scope.Perm (e.name :: d.message.scope) := by
  simp only [withEnum, Message.scope, List.map_append, List.map_singleton]
  grind

/-- A draft with one field more has one name more. -/
theorem scope_withField (d : Draft) (f : Field) :
    (d.withField f).message.scope.Perm (f.name :: d.message.scope) := by
  simp only [withField, Message.scope, List.map_append, List.map_singleton]
  grind

theorem scope_withOneof (d : Draft) (o : Oneof) :
    (d.withOneof o).message.scope.Perm (o.name :: d.message.scope) := by
  simp only [withOneof, Message.scope, List.map_append, List.map_singleton]
  grind

/-- A draft stays named when the message gets the declared name as its only new one. -/
theorem Named.cons {d d' : Draft} {name : String} {line : Nat} (h : d.Named)
    (hdeclared : d'.declared = (name, line) :: d.declared)
    (hscope : d'.message.scope.Perm (name :: d.message.scope)) : d'.Named := by
  unfold Named
  rw [hdeclared, List.map_cons]
  exact (List.Perm.cons name h).trans hscope.symm

/-- The check of a name asks whether the message has it already. -/
theorem Named.nodup_iff {d d' : Draft} {name : String} (h : d.Named)
    (hscope : d'.message.scope.Perm (name :: d.message.scope)) :
    d'.message.scope.Nodup ↔
      d.message.scope.Nodup ∧ (d.declared.lookup name).isSome = false := by
  rw [hscope.nodup_iff, List.nodup_cons, lookup_isSome_eq_false_iff, h.mem_iff, and_comm]

/-- Soundness reads the declarations of a draft and nothing else. -/
theorem sound_congr {d d' : Draft} (hscope : d'.message.scope = d.message.scope)
    (hfields : d'.message.fields = d.message.fields) (henums : d'.message.enums = d.message.enums)
    (hmessages : d'.message.messages = d.message.messages) : d.Sound ↔ d'.Sound := by
  constructor
  · rintro ⟨⟨scope, numbers, range, enums⟩, nested⟩
    exact ⟨⟨hscope ▸ scope, hfields ▸ numbers, hfields ▸ range, henums ▸ enums⟩, hmessages ▸ nested⟩
  · rintro ⟨⟨scope, numbers, range, enums⟩, nested⟩
    exact ⟨⟨hscope ▸ scope, hfields ▸ numbers, hfields ▸ range, henums ▸ enums⟩, hmessages ▸ nested⟩

/-- A draft stays sound with a nested message that is valid and has a new name. -/
theorem sound_withMessage_iff {d : Draft} (h : d.Named) (m : Message) :
    (d.withMessage m).Sound ↔
      (d.Sound ∧ m.Valid) ∧ (d.declared.lookup m.name).isSome = false := by
  have scope := h.nodup_iff (scope_withMessage d m)
  constructor
  · rintro ⟨⟨hscope, numbers, range, enums⟩, nested⟩
    obtain ⟨hscope, fresh⟩ := scope.mp hscope
    obtain ⟨nested, valid⟩ := forall_mem_concat_iff.mp nested
    exact ⟨⟨⟨⟨hscope, numbers, range, enums⟩, nested⟩, valid⟩, fresh⟩
  · rintro ⟨⟨⟨⟨hscope, numbers, range, enums⟩, nested⟩, valid⟩, fresh⟩
    exact ⟨⟨scope.mpr ⟨hscope, fresh⟩, numbers, range, enums⟩,
      forall_mem_concat_iff.mpr ⟨nested, valid⟩⟩

theorem sound_withEnum_iff {d : Draft} (h : d.Named) (e : Enumeration) :
    (d.withEnum e).Sound ↔
      (d.Sound ∧ e.Valid) ∧ (d.declared.lookup e.name).isSome = false := by
  have scope := h.nodup_iff (scope_withEnum d e)
  constructor
  · rintro ⟨⟨hscope, numbers, range, enums⟩, nested⟩
    obtain ⟨hscope, fresh⟩ := scope.mp hscope
    obtain ⟨enums, valid⟩ := forall_mem_concat_iff.mp enums
    exact ⟨⟨⟨⟨hscope, numbers, range, enums⟩, nested⟩, valid⟩, fresh⟩
  · rintro ⟨⟨⟨⟨hscope, numbers, range, enums⟩, nested⟩, valid⟩, fresh⟩
    exact ⟨⟨scope.mpr ⟨hscope, fresh⟩, numbers, range, forall_mem_concat_iff.mpr ⟨enums, valid⟩⟩,
      nested⟩

/-- A draft stays sound with a field that is in range and has a new name and a new number. -/
theorem sound_withField_iff {d : Draft} (h : d.Named) (f : Field) :
    (d.withField f).Sound ↔
      ((d.Sound ∧ f.InRange) ∧ (d.declared.lookup f.name).isSome = false) ∧
        d.message.fields.any (·.number = f.number) = false := by
  have scope := h.nodup_iff (scope_withField d f)
  have number := nodup_map_concat_iff (·.number) d.message.fields f
  constructor
  · rintro ⟨⟨hscope, numbers, range, enums⟩, nested⟩
    obtain ⟨hscope, fresh⟩ := scope.mp hscope
    obtain ⟨numbers, freshNumber⟩ := number.mp numbers
    obtain ⟨range, inRange⟩ := forall_mem_concat_iff.mp range
    exact ⟨⟨⟨⟨⟨hscope, numbers, range, enums⟩, nested⟩, inRange⟩, fresh⟩, freshNumber⟩
  · rintro ⟨⟨⟨⟨⟨hscope, numbers, range, enums⟩, nested⟩, inRange⟩, fresh⟩, freshNumber⟩
    exact ⟨⟨scope.mpr ⟨hscope, fresh⟩, number.mpr ⟨numbers, freshNumber⟩,
      forall_mem_concat_iff.mpr ⟨range, inRange⟩, enums⟩, nested⟩

/-- A draft stays sound with a oneof that has a new name. Its members are declared on their own. -/
theorem sound_withOneof_iff {d : Draft} (h : d.Named) (o : Oneof) :
    (d.withOneof o).Sound ↔ d.Sound ∧ (d.declared.lookup o.name).isSome = false := by
  have scope := h.nodup_iff (scope_withOneof d o)
  constructor
  · rintro ⟨⟨hscope, numbers, range, enums⟩, nested⟩
    obtain ⟨hscope, fresh⟩ := scope.mp hscope
    exact ⟨⟨⟨hscope, numbers, range, enums⟩, nested⟩, fresh⟩
  · rintro ⟨⟨⟨hscope, numbers, range, enums⟩, nested⟩, fresh⟩
    exact ⟨⟨scope.mpr ⟨hscope, fresh⟩, numbers, range, enums⟩, nested⟩

end Draft

/-! ### Declarations in a message -/

/-- In both modes, declaring a name adds it to those of the draft and does nothing else. -/
theorem declareName_ensures (mode : Mode) (line : Nat) (d : Draft) (name : String) :
    Ensures (· = d.withName line name) (d.declareName mode line name) :=
  .andThen _ fun _ => .pure rfl

theorem declareField_ensures (mode : Mode) (line : Nat) (d : Draft) (f : Field) :
    Ensures (· = (d.withName line f.name).withField f) (d.declareField mode line f) := by
  refine (declareName_ensures mode line d f.name).bind fun d' hd' => ?_
  exact .andThen _ fun _ => .pure (by rw [hd']; rfl)

/-- Strict mode lets pass the names that are not declared yet. -/
theorem declareName_filters {pre : Prop} (comments : Bool) (line : Nat) (d : Draft)
    (name : String) :
    Filters pre (fun _ => pre ∧ (d.declared.lookup name).isSome = false)
      (d.declareName ⟨true, comments⟩ line name) (d.declareName ⟨false, comments⟩ line name) :=
  Filters.declare.bind fun _ => .pure Iff.rfl

/-- Strict mode lets pass the fields with a new name and a new number. -/
theorem declareField_filters {pre : Prop} (comments : Bool) (line : Nat) (d : Draft) (f : Field) :
    Filters pre (fun _ => (pre ∧ (d.declared.lookup f.name).isSome = false) ∧
        d.message.fields.any (·.number = f.number) = false)
      (d.declareField ⟨true, comments⟩ line f) (d.declareField ⟨false, comments⟩ line f) := by
  refine (declareName_filters comments line d f.name).bindKnown
    (declareName_ensures ⟨false, comments⟩ line d f.name) fun d' hd' => ?_
  rw [hd']
  exact Filters.declare.bind fun _ => .pure Iff.rfl

/-- The members of a oneof are declared one after the other, where the oneof itself, whose name is
declared already, is still to be added. -/
theorem declareFields_ensures (mode : Mode) (line : Nat) (o : Oneof)
    (fields : List Field) (d : Draft) (h : (d.withOneof o).Named) :
    Ensures (fun d => (d.withOneof o).Named) (fields.foldlM (Draft.declareField mode line) d) := by
  induction fields generalizing d with
  | nil => exact .pure h
  | cons f fields ih =>
      rw [List.foldlM_cons]
      refine (declareField_ensures mode line d f).bind fun d' hd' => ih d' ?_
      rw [hd']
      exact h.cons rfl ((d.withOneof o).scope_withField f)

theorem declareFields_filters (comments : Bool) (line : Nat) (o : Oneof) (fields : List Field)
    (d : Draft) (h : (d.withOneof o).Named) :
    Filters ((d.withOneof o).Sound ∧ ∀ f ∈ fields, f.InRange) (fun d => (d.withOneof o).Sound)
      (fields.foldlM (Draft.declareField ⟨true, comments⟩ line) d)
      (fields.foldlM (Draft.declareField ⟨false, comments⟩ line) d) := by
  induction fields generalizing d with
  | nil => exact .pure (by simp)
  | cons f fields ih =>
      rw [List.foldlM_cons, List.foldlM_cons]
      refine (declareField_filters comments line d f).bindKnown
        (declareField_ensures ⟨false, comments⟩ line d f) fun d' hd' => ?_
      subst hd'
      have named : (((d.withName line f.name).withField f).withOneof o).Named :=
        h.cons rfl ((d.withOneof o).scope_withField f)
      have sound := Draft.sound_withField_iff h f
      refine (ih _ named).congrLeft (Iff.trans ?_ (and_congr_left' sound.symm))
      rw [List.forall_mem_cons]
      exact ⟨fun h => ⟨⟨⟨⟨h.1.1.1, h.1.1.2.1⟩, h.1.2⟩, h.2⟩, h.1.1.2.2⟩,
        fun h => ⟨⟨⟨h.1.1.1.1, h.1.1.1.2, h.2⟩, h.1.1.2⟩, h.1.2⟩⟩

/-- At the end of a block the fields are compared with the reserved statements. -/
theorem reservedError?_eq_none_iff (d : Draft) : reservedError? d = none ↔
    d.message.Unreserved := by
  unfold reservedError?
  rw [List.findSome?_eq_none_iff]
  constructor
  · intro h
    refine ⟨fun f hf hname => ?_, fun f hf r hr => ?_⟩
    · have hnone := h f hf
      simp [hname] at hnone
    · have hnone := h f hf
      by_cases hname : f.name ∈ d.message.reservedNames
      · simp [hname] at hnone
      · simp [hname] at hnone
        exact hnone r hr
  · intro h f hf
    have hname := h.names f hf
    simp only [List.contains_iff_mem, hname, if_false]
    rw [if_neg]
    simpa using h.numbers f hf

/-- Strict mode lets pass the messages without a reserved name or number. -/
theorem checkReserved_filters {pre : Prop} (comments : Bool) (d : Draft) :
    Filters pre (fun _ => pre ∧ d.message.Unreserved) (checkReserved ⟨true, comments⟩ d)
      (checkReserved ⟨false, comments⟩ d) := by
  intro c u e
  unfold checkReserved
  cases herror : reservedError? d with
  | none =>
      have free := (reservedError?_eq_none_iff d).mp herror
      simp [pure_run, free, and_comm]
  | some x =>
      have taken : ¬ d.message.Unreserved := fun h =>
        absurd ((reservedError?_eq_none_iff d).mpr h) (by simp [herror])
      simp [fail, taken]

/-! ### Messages -/

/-- Every step of a message's body declares what it adds. -/
theorem messageItem_ensures (mode : Mode) (room : Nat) (nested : Parser Message)
    (d : Draft) (t : Token)
    (h : d.Named) : Ensures Draft.Named (messageItem mode room nested d t) := by
  unfold messageItem
  split
  · refine .andThen nested fun m => ?_
    refine (declareName_ensures mode t.pos.line d m.name).bind fun d' hd' => .pure ?_
    rw [hd']
    exact h.cons rfl (d.scope_withMessage m)
  · refine .andThen (enumeration mode room) fun e => ?_
    refine (declareName_ensures mode t.pos.line d e.name).bind fun d' hd' => .pure ?_
    rw [hd']
    exact h.cons rfl (d.scope_withEnum e)
  · exact .andThen (optionStatement mode room) fun o => .pure h
  · refine .andThen (oneofGroup mode room) fun o => ?_
    refine (declareName_ensures mode t.pos.line d o.name).bind fun d' hd' => ?_
    subst hd'
    have named : ((d.withName t.pos.line o.name).withOneof o).Named :=
      h.cons rfl (d.scope_withOneof o)
    exact (declareFields_ensures mode t.pos.line o o.fields _ named).bind fun _ hd => .pure hd
  · exact .andThen (reserved mode maxFieldNumber) fun r => .pure h
  · exact .fail
  · exact .fail
  · exact .andThen advance fun _ => .pure h
  · exact .fail
  · refine .andThen (field mode room none) fun f => ?_
    intro c d' e heq
    rw [declareField_ensures mode t.pos.line d f c d' e heq]
    exact h.cons rfl (d.scope_withField f)

/-- A step in a message is refused in strict mode exactly if the draft is not sound any more. -/
theorem messageItem_filters (comments : Bool) (room : Nat) {nested nested' : Parser Message}
    (hnested : Filters True Message.Valid nested nested') (d : Draft) (t : Token) (h : d.Named) :
    Filters d.Sound Draft.Sound (messageItem ⟨true, comments⟩ room nested d t)
      (messageItem ⟨false, comments⟩ room nested' d t) := by
  unfold messageItem
  split
  · refine (hnested.frame d.Sound).bind fun m => ?_
    refine (declareName_filters comments t.pos.line d m.name).bindKnown
      (declareName_ensures ⟨false, comments⟩ t.pos.line d m.name) fun d' hd' => .pure ?_
    rw [hd']
    exact (Draft.sound_withMessage_iff h m).symm
  · refine ((enumeration_filters comments room).frame d.Sound).bind fun e => ?_
    refine (declareName_filters comments t.pos.line d e.name).bindKnown
      (declareName_ensures ⟨false, comments⟩ t.pos.line d e.name) fun d' hd' => .pure ?_
    rw [hd']
    exact (Draft.sound_withEnum_iff h e).symm
  · refine .andThen (optionStatement ⟨true, comments⟩ room) fun o => .pure ?_
    exact Draft.sound_congr rfl rfl rfl rfl
  · refine ((oneofGroup_filters comments room).frame d.Sound).bind fun o => ?_
    refine (declareName_filters comments t.pos.line d o.name).bindKnown
      (declareName_ensures ⟨false, comments⟩ t.pos.line d o.name) fun d' hd' => ?_
    subst hd'
    have named : ((d.withName t.pos.line o.name).withOneof o).Named :=
      h.cons rfl (d.scope_withOneof o)
    have sound := Draft.sound_withOneof_iff h o
    refine ((declareFields_filters comments t.pos.line o o.fields _ named).congrLeft ?_).bind
      fun _ => .pure Iff.rfl
    exact and_right_comm.trans (and_congr_left' sound.symm)
  · refine .andThen (reserved ⟨true, comments⟩ maxFieldNumber) fun r => .pure ?_
    exact Draft.sound_congr rfl rfl rfl rfl
  · exact .fail
  · exact .fail
  · exact .andThen advance fun _ => .pure Iff.rfl
  · exact .fail
  · refine ((field_filters comments room none).frame d.Sound).bind fun f => ?_
    refine (declareField_filters comments t.pos.line d f).congr
      (declareField_ensures ⟨false, comments⟩ t.pos.line d f) Iff.rfl fun d' hd' => ?_
    rw [hd']
    exact (Draft.sound_withField_iff h f).symm

theorem messageBlock_filters (comments : Bool) (room : Nat) {nested nested' : Parser Message}
    (hnested : Filters True Message.Valid nested nested') (name : String) (before : List Comment) :
    Filters True Message.Valid (messageBlock ⟨true, comments⟩ room nested name before)
      (messageBlock ⟨false, comments⟩ room nested' name before) := by
  unfold messageBlock
  refine .andThen (expectSign .lbrace) fun _ => ?_
  have start : True ↔ Draft.Sound ⟨⟨name, [], [], [], [], before, [], [], []⟩, []⟩ := by
    refine ⟨fun _ => ⟨⟨?_, ?_, ?_, ?_⟩, ?_⟩, fun _ => True.intro⟩ <;> simp [Message.scope]
  have named : Draft.Named ⟨⟨name, [], [], [], [], before, [], [], []⟩, []⟩ := List.Perm.refl []
  refine ((Filters.iterateKnown (messageItem_ensures ⟨false, comments⟩ room nested')
    (messageItem_filters comments room hnested) named).congrLeft start).bind fun d => ?_
  refine (checkReserved_filters comments d).bind fun _ => ?_
  refine .andThen (expectSign .rbrace) fun _ => ?_
  refine .andThen (takeTrailing ⟨true, comments⟩) fun behind => .pure ?_
  constructor
  · rintro ⟨⟨⟨scope, numbers, range, enums⟩, nested⟩, ⟨names, unreserved⟩⟩
    exact ⟨⟨scope, numbers, range, enums⟩, ⟨names, unreserved⟩, nested⟩
  · rintro ⟨⟨scope, numbers, range, enums⟩, ⟨names, unreserved⟩, nested⟩
    exact ⟨⟨⟨scope, numbers, range, enums⟩, nested⟩, ⟨names, unreserved⟩⟩

/-- Strict mode lets pass the valid messages, at every depth. -/
theorem message_filters (comments : Bool) (room : Nat) :
    Filters True Message.Valid (message ⟨true, comments⟩ room)
      (message ⟨false, comments⟩ room) := by
  induction room with
  | zero =>
      unfold message
      refine .andThen (takeComments ⟨true, comments⟩) fun before => ?_
      refine .andThen (expectKeyword .messageKw) fun _ => ?_
      refine .andThen (expectName .messageName) fun name => ?_
      exact .fail
  | succ room ih =>
      unfold message
      refine .andThen (takeComments ⟨true, comments⟩) fun before => ?_
      refine .andThen (expectKeyword .messageKw) fun _ => ?_
      refine .andThen (expectName .messageName) fun name => ?_
      exact messageBlock_filters comments room ih name.text before

/-! ### Files -/

/-- The check of a definition asks whether the file has its name already. -/
theorem scope_nodup_iff {f f' : SchemaFile} {name : String}
    (hscope : f'.scope.Perm (name :: f.scope)) :
    f'.scope.Nodup ↔ f.scope.Nodup ∧ defines f name = false := by
  have defined : defines f name = false ↔ name ∉ f.scope := by
    simp [defines, SchemaFile.scope, and_assoc]
  rw [hscope.nodup_iff, List.nodup_cons, defined, and_comm]

/-- A file stays valid with a service that is valid and has a new name. -/
theorem valid_withService_iff (f : SchemaFile) (s : Service) :
    SchemaFile.Valid { f with services := f.services ++ [s] } ↔
      (f.Valid ∧ s.Valid) ∧ defines f s.name = false := by
  have perm : (SchemaFile.scope { f with services := f.services ++ [s] }).Perm
      (s.name :: f.scope) := by
    simp only [SchemaFile.scope, List.map_append, List.map_singleton]
    grind
  have scope := scope_nodup_iff perm
  constructor
  · rintro ⟨hscope, services, messages, enums⟩
    obtain ⟨hscope, fresh⟩ := scope.mp hscope
    obtain ⟨services, valid⟩ := forall_mem_concat_iff.mp services
    exact ⟨⟨⟨hscope, services, messages, enums⟩, valid⟩, fresh⟩
  · rintro ⟨⟨⟨hscope, services, messages, enums⟩, valid⟩, fresh⟩
    exact ⟨scope.mpr ⟨hscope, fresh⟩, forall_mem_concat_iff.mpr ⟨services, valid⟩, messages, enums⟩

theorem valid_withMessage_iff (f : SchemaFile) (m : Message) :
    SchemaFile.Valid { f with messages := f.messages ++ [m] } ↔
      (f.Valid ∧ m.Valid) ∧ defines f m.name = false := by
  have perm : (SchemaFile.scope { f with messages := f.messages ++ [m] }).Perm
      (m.name :: f.scope) := by
    simp only [SchemaFile.scope, List.map_append, List.map_singleton]
    grind
  have scope := scope_nodup_iff perm
  constructor
  · rintro ⟨hscope, services, messages, enums⟩
    obtain ⟨hscope, fresh⟩ := scope.mp hscope
    obtain ⟨messages, valid⟩ := forall_mem_concat_iff.mp messages
    exact ⟨⟨⟨hscope, services, messages, enums⟩, valid⟩, fresh⟩
  · rintro ⟨⟨⟨hscope, services, messages, enums⟩, valid⟩, fresh⟩
    exact ⟨scope.mpr ⟨hscope, fresh⟩, services, forall_mem_concat_iff.mpr ⟨messages, valid⟩, enums⟩

theorem valid_withEnum_iff (f : SchemaFile) (e : Enumeration) :
    SchemaFile.Valid { f with enums := f.enums ++ [e] } ↔
      (f.Valid ∧ e.Valid) ∧ defines f e.name = false := by
  have perm : (SchemaFile.scope { f with enums := f.enums ++ [e] }).Perm (e.name :: f.scope) := by
    simp only [SchemaFile.scope, List.map_append, List.map_singleton]
    grind
  have scope := scope_nodup_iff perm
  constructor
  · rintro ⟨hscope, services, messages, enums⟩
    obtain ⟨hscope, fresh⟩ := scope.mp hscope
    obtain ⟨enums, valid⟩ := forall_mem_concat_iff.mp enums
    exact ⟨⟨⟨hscope, services, messages, enums⟩, valid⟩, fresh⟩
  · rintro ⟨⟨⟨hscope, services, messages, enums⟩, valid⟩, fresh⟩
    exact ⟨scope.mpr ⟨hscope, fresh⟩, services, messages, forall_mem_concat_iff.mpr ⟨enums, valid⟩⟩

/-- A definition is refused in strict mode exactly if the file is not valid any more. -/
theorem definition_filters (comments : Bool) (f : SchemaFile) (t : Token) :
    Filters f.Valid SchemaFile.Valid (definition ⟨true, comments⟩ f t)
      (definition ⟨false, comments⟩ f t) := by
  unfold definition
  split
  · refine ((service_filters comments).frame f.Valid).bind fun s => ?_
    exact Filters.declare.bind fun _ => .pure (valid_withService_iff f s).symm
  · refine ((message_filters comments maxDepth).frame f.Valid).bind fun m => ?_
    exact Filters.declare.bind fun _ => .pure (valid_withMessage_iff f m).symm
  · refine ((enumeration_filters comments maxDepth).frame f.Valid).bind fun e => ?_
    exact Filters.declare.bind fun _ => .pure (valid_withEnum_iff f e).symm
  · exact .andThen advance fun _ => .pure Iff.rfl
  · exact .fail
  · exact .fail

/-- The header defines nothing that could be invalid. -/
theorem header_ensures (mode : Mode) : Ensures SchemaFile.Valid (header mode) := by
  have start : ∀ v, SchemaFile.Valid { SchemaFile.empty with version := v } := by
    intro v
    constructor <;> simp [SchemaFile.scope, SchemaFile.empty]
  have item : ∀ f t, f.Valid → Ensures SchemaFile.Valid (headerItem mode f t) := by
    intro f t h
    obtain ⟨scope, services, messages, enums⟩ := h
    unfold headerItem
    split
    · split
      · exact .fail
      · exact .andThen (package mode) fun _ => .pure ⟨scope, services, messages, enums⟩
    · exact .andThen (importStatement mode) fun _ => .pure ⟨scope, services, messages, enums⟩
    · exact .andThen (optionStatement mode maxDepth) fun _ =>
        .pure ⟨scope, services, messages, enums⟩
    · exact .andThen advance fun _ => .pure ⟨scope, services, messages, enums⟩
  unfold header
  refine .andThen peek fun t => ?_
  dsimp only
  split
  · exact .andThen (version mode) fun v => (Ensures.pure (start v)).bind fun f hf =>
      .iterate item hf
  · exact (Ensures.pure (start .proto3)).bind fun f hf => .iterate item hf

/-- Strict mode lets pass the valid files. -/
theorem file_filters (comments : Bool) :
    Filters True SchemaFile.Valid (file ⟨true, comments⟩) (file ⟨false, comments⟩) := by
  unfold file
  refine (Filters.same True (header ⟨true, comments⟩)).bindKnown
    (header_ensures ⟨false, comments⟩) fun f hf => ?_
  exact (Filters.iterate (definition_filters comments) f).congrLeft (iff_of_true True.intro hf)

/-- A tree that was read in strict mode is valid. -/
theorem parse_valid {comments : Bool} {text : String} {f : SchemaFile}
    (hread : parse ⟨true, comments⟩ text = .ok f) : f.Valid := by
  obtain ⟨stream, -, hread⟩ := parse_ok hread
  obtain ⟨c, hfile⟩ := readTokens_ok hread
  exact ((file_filters comments _ _ _).mp ⟨True.intro, hfile⟩).2

/-- **Strict reading is lenient reading and a test of the tree**: in strict mode a token stream has
exactly those trees that it has in lenient mode and that are valid. -/
theorem strict_iff_lenient_and_valid (comments : Bool) (s : TokenStream) (f : SchemaFile) :
    (readTokens ⟨true, comments⟩ s).outcome = .ok f ↔
      (readTokens ⟨false, comments⟩ s).outcome = .ok f ∧ f.Valid := by
  have outcome : ∀ strict, (readTokens ⟨strict, comments⟩ s).outcome = .ok f ↔
      ∃ d, file ⟨strict, comments⟩ (.ofStream s) = .ok f d := by
    intro strict
    unfold readTokens
    cases file ⟨strict, comments⟩ (.ofStream s) with
    | ok g d => simp
    | error e d => simp
  rw [outcome, outcome, ← exists_and_right]
  refine exists_congr fun d => ?_
  rw [← file_filters comments (.ofStream s) f d, true_and]

end Grammar

end ProtoRoutes
