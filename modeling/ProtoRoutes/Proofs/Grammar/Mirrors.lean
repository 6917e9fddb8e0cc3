import ProtoRoutes.Proofs.Grammar.Beside

/-!
# ProtoRoutes.Proofs.Grammar.Mirrors

**Comments and places never influence a rule.** There is one lemma for each rule of the grammar, for
a reading that drops comments or has none beside one that may keep them, and for tokens that may
stand at other places. What the left rule builds is the right tree with its comment lists emptied
(`bare`), so rules are compared by `a = b.bare`, and rules that build no declaration by equality
(`Blind`).

The statements of a header and the definitions are read into two files that need not be the same;
any relation that is kept by adding the same to both is kept (`HeaderStable`, `Stable`).
-/

namespace ProtoRoutes.Grammar

/-! ### Names and values -/

section Names

variable {moved comments : Bool}

theorem fullIdent_blind : Blind moved comments fullIdent := by
  refine (expectName_mirrors _).andToken fun first _ _ _ => ?_
  refine (many_blind (fun _ _ _ => rfl) ?_).andThen fun others => .pure rfl
  exact advance_mirrors.skip ((expectName_mirrors _).andToken fun _ _ _ _ => .pure rfl)

theorem typeName_blind : Blind moved comments typeName :=
  (accept_blind _).andThen fun _ => fullIdent_blind.andThen fun _ => .pure rfl

theorem stringValue_blind : Blind moved comments stringValue := by
  refine (expectKind_mirrors _ _).andToken fun first _ _ _ => ?_
  refine (many_blind (fun _ _ _ => rfl) ?_).andThen fun others => .pure rfl
  exact advance_mirrors.andToken fun _ _ _ _ => .pure rfl

theorem signedInteger_blind : Blind moved comments signedInteger := by
  refine (accept_blind _).andThen fun negative => ?_
  refine (expectKind_mirrors _ _).andToken fun t _ _ ht => ?_
  dsimp only [Token.moved]
  split
  · exact .pure rfl
  · exact .unexpected ht

/-- A number is read from the text of its token, wherever that stands. -/
theorem numberOf_mirrors (t : Token) (pos : Position) (line : Nat) :
    Mirrors moved comments Eq (numberOf t) (numberOf (t.moved pos line)) := by
  unfold numberOf
  dsimp only [Token.moved]
  split
  · exact .pure rfl
  · exact .breakDown _

theorem unsignedNumber_blind : Blind moved comments unsignedNumber := by
  refine peek_mirrors.andToken fun t pos line ht => ?_
  refine .ite (fun _ => advance_mirrors.skip (numberOf_mirrors t pos line)) fun _ => ?_
  refine .ite (fun _ => advance_mirrors.skip (.pure rfl)) fun _ => ?_
  exact .ite (fun _ => advance_mirrors.skip (.pure rfl)) fun _ => .unexpected ht

theorem literalKey_blind : Blind moved comments literalKey := by
  refine (accept_blind _).andThen fun bracket => .ite (fun _ => ?_) fun _ => ?_
  · exact fullIdent_blind.andThen fun _ => (expectSign_mirrors _).skip (.pure rfl)
  · exact (expectName_mirrors _).andToken fun _ _ _ _ => .pure rfl

theorem literalSeparator_blind : Blind moved comments literalSeparator := by
  refine (accept_blind _).andThen fun comma => .ite (fun _ => .pure rfl) fun _ => ?_
  exact (accept_blind _).skip (.pure rfl)

theorem literalFieldValue_blind {value : Parser Value} (h : Blind moved comments value)
    (key : String) : Blind moved comments (literalFieldValue value key) := by
  refine (accept_blind _).andThen fun colon => .ite (fun _ => h) fun _ => ?_
  exact peek_mirrors.andToken fun t _ _ ht => .ite (fun _ => h) fun _ => .unexpected ht

theorem literalFields_blind {value : Parser Value} (h : Blind moved comments value) :
    Blind moved comments (literalFields value) := by
  refine .block (fun fields fields' t _ _ ht heq => ?_) rfl
  subst heq
  refine .ite (fun _ => .unexpected ht) fun _ => ?_
  refine literalKey_blind.andThen fun key => ?_
  refine (literalFieldValue_blind h key).andThen fun v => ?_
  exact literalSeparator_blind.skip (.pure rfl)

theorem listLiteral_blind {value : Parser Value} (h : Blind moved comments value) :
    Blind moved comments (listLiteral value) := by
  have close (items : List Value) : Blind moved comments (do
      let _ ← expectSign .rbracket
      pure (Value.list items)) :=
    (expectSign_mirrors _).skip (.pure rfl)
  refine peek_mirrors.andToken fun _ _ _ _ => .ite (fun _ => close []) fun _ => ?_
  exact (commaSeparated_blind h).andThen close

/-- If a literal is one too many, the brace is quoted by its place. -/
theorem messageLiteral_mirrors {value : Nat → Parser Value}
    (h : ∀ room, Blind moved comments (value room)) {brace : Token} {pos : Position} {line : Nat}
    (ht : Stays moved brace pos line) (room : Nat) :
    Mirrors moved comments Eq (messageLiteral value brace room)
      (messageLiteral value (brace.moved pos line) room) := by
  cases room with
  | zero =>
      refine .fail rfl fun hmoved => ?_
      rw [ht hmoved]
  | succ room =>
      refine (literalFields_blind (h room)).andThen fun fields => ?_
      exact (expectSign_mirrors _).skip (.pure rfl)

/-- The kind of a value is decided by the shape of its first token. -/
theorem valueStep_blind {value : Nat → Parser Value}
    (h : ∀ room, Blind moved comments (value room)) (room : Nat) :
    Blind moved comments (valueStep value room) := by
  refine peek_mirrors.andToken fun t pos line ht => ?_
  dsimp only [Token.moved]
  split
  · exact stringValue_blind.map
  · exact advance_mirrors.skip (unsignedNumber_blind.andThen fun _ => .pure rfl)
  · exact advance_mirrors.skip (unsignedNumber_blind.andThen fun _ => .pure rfl)
  · exact advance_mirrors.skip ((numberOf_mirrors t pos line).andThen fun _ => .pure rfl)
  · exact advance_mirrors.skip (messageLiteral_mirrors h ht room)
  · exact advance_mirrors.skip (listLiteral_blind (h room))
  · refine .ite (fun _ => advance_mirrors.skip (.pure rfl)) fun _ => ?_
    exact .ite (fun _ => fullIdent_blind.map) fun _ => .unexpected ht

theorem valueWithin_blind (bound room : Nat) : Blind moved comments (valueWithin bound room) := by
  induction bound generalizing room with
  | zero => exact .breakDown _
  | succ bound ih => exact valueStep_blind ih room

/-- The bound on nesting is the number of tokens, which is the same on both sides. -/
theorem optionValue_blind (room : Nat) : Blind moved comments (optionValue room) := by
  intro c d beside
  unfold optionValue
  rw [beside.length_eq]
  exact valueWithin_blind _ room c d beside

theorem optionNamePart_blind : Blind moved comments optionNamePart := by
  refine (accept_blind _).andThen fun paren => .ite (fun _ => ?_) fun _ => ?_
  · refine (accept_blind _).andThen fun rooted => fullIdent_blind.andThen fun name => ?_
    exact (expectSign_mirrors _).skip (.pure rfl)
  · exact (expectName_mirrors _).andToken fun _ _ _ _ => .pure rfl

theorem optionNameSuffix_blind : Blind moved comments optionNameSuffix := by
  refine (accept_blind _).andThen fun dot => .ite (fun _ => ?_) fun _ => ?_
  · exact optionNamePart_blind.andThen fun _ => .pure rfl
  · refine (expectSign_mirrors _).skip (fullIdent_blind.andThen fun index => ?_)
    exact (expectSign_mirrors _).skip (.pure rfl)

theorem optionName_blind : Blind moved comments optionName := by
  refine optionNamePart_blind.andThen fun first => ?_
  exact (many_blind (fun _ _ _ => rfl) optionNameSuffix_blind).andThen fun _ => .pure rfl

theorem optionAssignment_blind (room : Nat) : Blind moved comments (optionAssignment room) := by
  refine optionName_blind.andThen fun name => (expectSign_mirrors _).skip ?_
  exact (optionValue_blind room).andThen fun _ => .pure rfl

theorem inlineOptions_blind (room : Nat) : Blind moved comments (inlineOptions room) := by
  refine (accept_blind _).andThen fun bracket => .ite (fun _ => ?_) fun _ => .pure rfl
  refine (commaSeparated_blind (optionAssignment_blind room)).andThen fun options => ?_
  exact (expectSign_mirrors _).skip (.pure rfl)

end Names

/-! ### Services

From here on the two sides may differ in their comments, and the left result is the right one
without them. -/

section Services

variable {moved left : Bool} (strict right : Bool)

theorem optionStatement_mirrors (room : Nat) :
    Mirrors moved left Eq (optionStatement ⟨strict, left⟩ room)
      (optionStatement ⟨strict, right⟩ room) := by
  refine (expectKeyword_mirrors _).skip ((optionAssignment_blind room).andThen fun o => ?_)
  exact lastSign_mirrors strict right _ fun _ => rfl

/-- The line of a definition stands in the error only. -/
theorem declare_mirrors (taken : Bool) (what : Definition) {line line' : Nat}
    (hline : moved = false → line = line') :
    Mirrors moved left Eq (declare ⟨strict, left⟩ taken what line)
      (declare ⟨strict, right⟩ taken what line') := by
  unfold declare
  refine .ite (fun _ => .fail ?_ fun hmoved => ?_) fun _ => .pure rfl
  · cases what <;> rfl
  · rw [hline hmoved]

theorem methodType_blind : Blind moved left methodType := by
  refine (expectSign_mirrors _).skip (peek_mirrors.andToken fun t _ _ _ => ?_)
  refine peekSecond_mirrors.andToken fun u _ _ _ => ?_
  have rest (stream : Bool) : Blind moved left (do
      let name ← typeName
      let _ ← expectSign .rparen
      pure (TypeRef.parse stream name)) :=
    typeName_blind.andThen fun _ => (expectSign_mirrors _).skip (.pure rfl)
  exact .ite (fun _ => advance_mirrors.skip (rest _)) fun _ => rest _

/-- Options have no comments of their own, so those of a method are equal on both sides. -/
theorem methodItem_mirrors (options options' : List SchemaOption) (t : Token) (pos : Position)
    (line : Nat) (ht : Stays moved t pos line) (h : options = options') :
    Mirrors moved left Eq (methodItem ⟨strict, left⟩ options t)
      (methodItem ⟨strict, right⟩ options' (t.moved pos line)) := by
  subst h
  unfold methodItem
  dsimp only [Token.moved]
  split
  · exact (optionStatement_mirrors strict right maxDepth).andThen fun _ => .pure rfl
  · exact advance_mirrors.skip (.pure rfl)
  · exact .unexpected ht

theorem methodBody_mirrors :
    Mirrors moved left Eq (methodBody ⟨strict, left⟩) (methodBody ⟨strict, right⟩) := by
  refine (accept_blind _).andThen fun brace => .ite (fun _ => ?_) fun _ => ?_
  · refine (Mirrors.block (methodItem_mirrors strict right) rfl).andThen fun options => ?_
    exact (expectSign_mirrors _).skip ((accept_blind _).skip (.pure rfl))
  · exact (expectKind_mirrors _ _).skip (.pure rfl)

/-- The methods are the same but for the comments. -/
theorem method_mirrors :
    Mirrors moved left (fun a b => a = b.bare) (method ⟨strict, left⟩)
      (method ⟨strict, right⟩) := by
  refine takeComments_mirrors strict right fun before => ?_
  refine (expectKeyword_mirrors _).skip ((expectName_mirrors _).andToken fun name _ _ _ => ?_)
  refine methodType_blind.andThen fun input => (expectKeyword_mirrors _).skip ?_
  refine methodType_blind.andThen fun output => ?_
  refine (methodBody_mirrors strict right).andThen fun options => (defer_blind _ _).skip ?_
  exact takeTrailing_mirrors strict right fun behind => .pure rfl

/-- Names are compared with those of a service without its comments, which has the same. -/
theorem serviceItem_mirrors (s s' : Service) (t : Token) (pos : Position) (line : Nat)
    (ht : Stays moved t pos line) (h : s = s'.bare) :
    Mirrors moved left (fun a b => a = b.bare) (serviceItem ⟨strict, left⟩ s t)
      (serviceItem ⟨strict, right⟩ s' (t.moved pos line)) := by
  subst h
  unfold serviceItem
  dsimp only [Token.moved]
  split
  · refine (method_mirrors strict right).bind fun m m' hm => ?_
    subst hm
    have taken : s'.bare.methods.any (·.name = m'.bare.name) = s'.methods.any (·.name = m'.name) :=
      List.any_map
    rw [taken]
    refine (declare_mirrors strict right _ _ ht.line).skip (.pure ?_)
    simp [Service.bare]
  · exact (optionStatement_mirrors strict right maxDepth).andThen fun o => .pure rfl
  · exact advance_mirrors.skip (.pure rfl)
  · exact .unexpected ht

theorem service_mirrors :
    Mirrors moved left (fun a b => a = b.bare) (service ⟨strict, left⟩)
      (service ⟨strict, right⟩) := by
  refine takeComments_mirrors strict right fun before => ?_
  refine (expectKeyword_mirrors _).skip ((expectName_mirrors _).andToken fun name _ _ _ => ?_)
  refine (expectSign_mirrors _).skip ?_
  refine (Mirrors.block (serviceItem_mirrors strict right) ?_).bind fun s s' hs => ?_
  · rfl
  · subst hs
    exact lastSign_mirrors strict right _ fun _ => rfl

/-! ### Enums and reserved numbers -/

theorem rangeEnd_blind (limit first : Int) : Blind moved left (rangeEnd limit first) := by
  refine peek_mirrors.andToken fun _ _ _ _ => .ite (fun _ => ?_) fun _ => .pure rfl
  refine advance_mirrors.skip (peek_mirrors.andToken fun _ _ _ _ => ?_)
  exact .ite (fun _ => advance_mirrors.skip (.pure rfl)) fun _ => signedInteger_blind

theorem reservedRange_blind (limit : Int) : Blind moved left (reservedRange limit) := by
  refine peek_mirrors.andToken fun t _ _ ht => signedInteger_blind.andThen fun first => ?_
  refine (rangeEnd_blind limit first).andThen fun last => .ite (fun _ => ?_) fun _ => .pure rfl
  refine .fail rfl fun hmoved => ?_
  rw [ht hmoved]

theorem reserved_mirrors (limit : Int) :
    Mirrors moved left Eq (reserved ⟨strict, left⟩ limit) (reserved ⟨strict, right⟩ limit) := by
  refine (expectKeyword_mirrors _).skip (peek_mirrors.andToken fun t _ _ _ => ?_)
  have close (r : Reservation) : Mirrors moved left Eq
      (do
        let _ ← expectSign .semicolon
        let _ ← takeTrailing ⟨strict, left⟩
        pure r)
      (do
        let _ ← expectSign .semicolon
        let _ ← takeTrailing ⟨strict, right⟩
        pure r) :=
    lastSign_mirrors strict right _ fun _ => rfl
  refine .ite (fun _ => ?_) fun _ => ?_
  · exact (commaSeparated_blind stringValue_blind).andThen fun names => close ⟨[], names⟩
  · exact (commaSeparated_blind (reservedRange_blind limit)).andThen
      fun ranges => close ⟨ranges, []⟩

theorem enumValue_mirrors (room : Nat) :
    Mirrors moved left (fun a b => a = b.bare) (enumValue ⟨strict, left⟩ room)
      (enumValue ⟨strict, right⟩ room) := by
  refine takeComments_mirrors strict right fun before => ?_
  refine (expectName_mirrors _).andToken fun name _ _ _ => (expectSign_mirrors _).skip ?_
  refine signedInteger_blind.andThen fun number => ?_
  refine (inlineOptions_blind room).andThen fun options => ?_
  exact lastSign_mirrors strict right _ fun _ => rfl

/-- Enums that are the same but for comments stay so with every item. -/
theorem enumItem_mirrors (room : Nat) (e e' : Enumeration) (t : Token) (pos : Position)
    (line : Nat) (ht : Stays moved t pos line) (h : e = e'.bare) :
    Mirrors moved left (fun a b => a = b.bare) (enumItem ⟨strict, left⟩ room e t)
      (enumItem ⟨strict, right⟩ room e' (t.moved pos line)) := by
  subst h
  unfold enumItem
  dsimp only [Token.moved]
  split
  · exact (optionStatement_mirrors strict right room).andThen fun o => .pure rfl
  · exact (reserved_mirrors strict right _).andThen fun r => .pure rfl
  · exact advance_mirrors.skip (.pure rfl)
  · exact .unexpected ht
  · refine (enumValue_mirrors strict right room).bind fun v v' hv => ?_
    subst hv
    have taken : e'.bare.values.any (·.name = v'.bare.name) = e'.values.any (·.name = v'.name) :=
      List.any_map
    rw [taken]
    refine (declare_mirrors strict right _ _ ht.line).skip (.pure ?_)
    simp [Enumeration.bare]

theorem enumeration_mirrors (room : Nat) :
    Mirrors moved left (fun a b => a = b.bare) (enumeration ⟨strict, left⟩ room)
      (enumeration ⟨strict, right⟩ room) := by
  refine takeComments_mirrors strict right fun before => ?_
  refine (expectKeyword_mirrors _).skip ((expectName_mirrors _).andToken fun name _ _ _ => ?_)
  refine (expectSign_mirrors _).skip ?_
  refine (Mirrors.block (enumItem_mirrors strict right room) ?_).bind fun e e' he => ?_
  · rfl
  · subst he
    exact lastSign_mirrors strict right _ fun _ => rfl

end Services

/-! ### Messages -/

section Messages

variable {moved left : Bool} (strict right : Bool)

theorem plainType_blind : Blind moved left plainType :=
  typeName_blind.andThen fun _ => .pure rfl

theorem mapType_blind : Blind moved left mapType := by
  refine (expectKeyword_mirrors _).skip ((expectSign_mirrors _).skip ?_)
  refine peek_mirrors.andToken fun t pos line ht => plainType_blind.andThen fun key => ?_
  have wrong : Mirrors moved left Eq (fail (.defect t.pos (.mapKey t.text)) : Parser FieldType)
      (fail (.defect pos (.mapKey t.text))) := by
    refine .fail rfl fun hmoved => ?_
    rw [← ht hmoved]
    rfl
  split
  · refine .ite (fun _ => ?_) fun _ => wrong
    refine (expectSign_mirrors _).skip (plainType_blind.andThen fun value => ?_)
    exact (expectSign_mirrors _).skip (.pure rfl)
  · exact wrong

theorem fieldType_blind (label : Label) : Blind moved left (fieldType label) := by
  refine peek_mirrors.andToken fun t _ _ ht => peekSecond_mirrors.andToken fun u _ _ _ => ?_
  dsimp only [Token.moved]
  split
  · refine .fail rfl fun hmoved => ?_
    rw [ht.line hmoved]
  · refine .ite (fun _ => ?_) fun _ => plainType_blind.map
    exact .ite (fun _ => mapType_blind) fun _ => .unexpected ht

theorem fieldNumber_mirrors :
    Mirrors moved left Eq (fieldNumber ⟨strict, left⟩) (fieldNumber ⟨strict, right⟩) := by
  refine (expectKind_mirrors _ _).andToken fun t pos line ht => ?_
  dsimp only [Token.moved]
  split
  · exact .unexpected ht
  · refine .ite (fun _ => .fail rfl fun hmoved => ?_) fun _ => .pure rfl
    rw [← ht hmoved]
    rfl

theorem fieldLabel_blind (inOneof : Bool) : Blind moved left (fieldLabel inOneof) := by
  refine peek_mirrors.andToken fun t pos line ht => ?_
  have label : label? (t.moved pos line) = label? t := rfl
  rw [label]
  split
  · exact .pure rfl
  · exact .ite (fun _ => .unexpected ht) fun _ => advance_mirrors.skip (.pure rfl)

/-- A field is the same but for its comments. -/
theorem field_mirrors (room : Nat) (oneof : Option String) :
    Mirrors moved left (fun a b => a = b.bare) (field ⟨strict, left⟩ room oneof)
      (field ⟨strict, right⟩ room oneof) := by
  refine takeComments_mirrors strict right fun before => ?_
  refine (fieldLabel_blind _).andThen fun label => (fieldType_blind label).andThen fun type => ?_
  refine (expectName_mirrors _).andToken fun name _ _ _ => (expectSign_mirrors _).skip ?_
  refine (fieldNumber_mirrors strict right).andThen fun number => ?_
  refine (inlineOptions_blind room).andThen fun options => ?_
  exact lastSign_mirrors strict right _ fun _ => rfl

theorem oneofItem_mirrors (room : Nat) (o o' : Oneof) (t : Token) (pos : Position) (line : Nat)
    (ht : Stays moved t pos line) (h : o = o'.bare) :
    Mirrors moved left (fun a b => a = b.bare) (oneofItem ⟨strict, left⟩ room o t)
      (oneofItem ⟨strict, right⟩ room o' (t.moved pos line)) := by
  subst h
  unfold oneofItem
  dsimp only [Token.moved]
  split
  · exact (optionStatement_mirrors strict right room).andThen fun _ => .pure rfl
  · exact advance_mirrors.skip (.pure rfl)
  · exact .unexpected ht
  · refine (field_mirrors strict right room _).bind fun f f' hf => .pure ?_
    subst hf
    simp [Oneof.bare]

theorem oneofGroup_mirrors (room : Nat) :
    Mirrors moved left (fun a b => a = b.bare) (oneofGroup ⟨strict, left⟩ room)
      (oneofGroup ⟨strict, right⟩ room) := by
  refine takeComments_mirrors strict right fun before => ?_
  refine (expectKeyword_mirrors _).skip ((expectName_mirrors _).andToken fun name _ _ _ => ?_)
  refine (expectSign_mirrors _).skip ?_
  refine (Mirrors.block (oneofItem_mirrors strict right room) ?_).bind fun o o' ho => ?_
  · rfl
  · subst ho
    exact lastSign_mirrors strict right _ fun _ => rfl

theorem bare_mk (m : Message) :
    m.bare = { m with
      fields := m.fields.map Field.bare, messages := m.messages.map Message.bare
      enums := m.enums.map Enumeration.bare, comments := []
      oneofs := m.oneofs.map Oneof.bare } := by
  cases m
  rw [Message.bare, Message.bareAll_eq_map]

/-- Two drafts of which the left one has no comments; the lines of names are the same unless tokens
are moved. -/
structure Draft.Like (moved : Bool) (d d' : Draft) : Prop where
  message : d.message = d'.message.bare
  names : d.declared.map Prod.fst = d'.declared.map Prod.fst
  lines : moved = false → d.declared = d'.declared

/-- Whether a name is declared does not depend on the line it is declared at. -/
theorem lookup_isSome_eq_contains (declared : List (String × Nat)) (name : String) :
    (declared.lookup name).isSome = (declared.map Prod.fst).contains name := by
  induction declared with
  | nil => rfl
  | cons entry declared ih =>
      rw [List.lookup_cons, List.map_cons, List.contains_cons]
      cases hname : name == entry.1 with
      | true => simp
      | false => simpa using ih

/-- A name is taken in both drafts or in neither one. -/
theorem declareName_mirrors {d d' : Draft} (h : d.Like moved d') {line line' : Nat}
    (hline : moved = false → line = line') (name : String) :
    Mirrors moved left (Draft.Like moved) (d.declareName ⟨strict, left⟩ line name)
      (d'.declareName ⟨strict, right⟩ line' name) := by
  unfold Draft.declareName
  rw [lookup_isSome_eq_contains, lookup_isSome_eq_contains, h.names]
  refine (declare_mirrors strict right _ _ hline).skip (.pure ⟨h.message, ?_, fun hmoved => ?_⟩)
  · rw [List.map_cons, List.map_cons, h.names]
  · rw [hline hmoved, h.lines hmoved]

/-- The numbers of fields are the same, so they are taken in both drafts or in neither one. -/
theorem declareField_mirrors {d d' : Draft} (h : d.Like moved d') {line line' : Nat}
    (hline : moved = false → line = line') (f : Field) :
    Mirrors moved left (Draft.Like moved) (d.declareField ⟨strict, left⟩ line f.bare)
      (d'.declareField ⟨strict, right⟩ line' f) := by
  refine (declareName_mirrors strict right h hline f.name).bind fun e e' he => ?_
  have taken : e.message.fields.any (·.number = f.bare.number) =
      e'.message.fields.any (·.number = f.number) := by
    rw [he.message, bare_mk]
    exact List.any_map
  have name : e.message.name = e'.message.name := by rw [he.message, bare_mk]
  rw [taken, name]
  refine (declare_mirrors strict right _ _ hline).skip (.pure ⟨?_, he.names, he.lines⟩)
  simp [he.message, bare_mk]

theorem declareFields_mirrors {d d' : Draft} (h : d.Like moved d') {line line' : Nat}
    (hline : moved = false → line = line') (fields : List Field) :
    Mirrors moved left (Draft.Like moved)
      ((fields.map Field.bare).foldlM (Draft.declareField ⟨strict, left⟩ line) d)
      (fields.foldlM (Draft.declareField ⟨strict, right⟩ line') d') := by
  induction fields generalizing d d' with
  | nil => exact .pure h
  | cons f fields ih =>
      rw [List.map_cons, List.foldlM_cons, List.foldlM_cons]
      exact (declareField_mirrors strict right h hline f).bind fun _ _ => ih

/-- Whether a field is reserved does not depend on comments. -/
theorem reservedError?_bare (m : Message) (declared : List (String × Nat)) :
    reservedError? ⟨m.bare, declared⟩ = reservedError? ⟨m, declared⟩ := by
  unfold reservedError?
  simp only [bare_mk]
  rw [List.findSome?_map]
  rfl

/-- The lines of names stand in the error only. -/
theorem reservedError?_numbers (m : Message) (declared declared' : List (String × Nat)) :
    (reservedError? ⟨m, declared⟩).map SchemaError.numbers =
      (reservedError? ⟨m, declared'⟩).map SchemaError.numbers := by
  unfold reservedError?
  rw [List.map_findSome?, List.map_findSome?]
  congr 1
  funext f
  simp only [Function.comp_apply]
  split
  · rfl
  · split
    · rfl
    · rfl

/-- The two checks find the same field, and report it with the lines of the drafts. -/
theorem checkReserved_mirrors {d d' : Draft} (h : d.Like moved d') :
    Mirrors moved left Eq (checkReserved ⟨strict, left⟩ d) (checkReserved ⟨strict, right⟩ d') := by
  have bare : reservedError? d = reservedError? ⟨d'.message, d.declared⟩ := by
    rw [← reservedError?_bare d'.message, ← h.message]
  have numbers : (reservedError? d).map SchemaError.numbers =
      (reservedError? d').map SchemaError.numbers := by
    rw [bare]
    exact reservedError?_numbers _ _ _
  have same (hmoved : moved = false) : reservedError? d = reservedError? d' := by
    rw [bare, h.lines hmoved]
  unfold checkReserved
  refine .ite (fun _ => ?_) fun _ => .pure rfl
  cases hleft : reservedError? d with
  | none =>
      rw [hleft] at numbers
      rw [Option.map_eq_none_iff.mp numbers.symm]
      exact .pure rfl
  | some e =>
      rw [hleft] at numbers same
      obtain ⟨e', hright, heq⟩ := Option.map_eq_some_iff.mp numbers.symm
      rw [hright] at same ⊢
      exact .fail heq.symm fun hmoved => Option.some.inj (same hmoved)

/-- One step in the bodies of two messages. -/
theorem messageItem_mirrors (room : Nat) {nested nested' : Parser Message}
    (hnested : Mirrors moved left (fun a b => a = b.bare) nested nested') (d d' : Draft) (t : Token)
    (pos : Position) (line : Nat) (ht : Stays moved t pos line) (h : d.Like moved d') :
    Mirrors moved left (Draft.Like moved) (messageItem ⟨strict, left⟩ room nested d t)
      (messageItem ⟨strict, right⟩ room nested' d' (t.moved pos line)) := by
  have name : d.message.name = d'.message.name := by rw [h.message, bare_mk]
  have unsupported : Mirrors moved left (Draft.Like moved)
      (fail (.unsupported (.inMessage t.text d.message.name) t.pos.line))
      (fail (.unsupported (.inMessage t.text d'.message.name) pos.line)) := by
    refine .fail rfl fun hmoved => ?_
    rw [name, ht.line hmoved]
  unfold messageItem
  dsimp only [Token.moved]
  split
  · refine hnested.bind fun m m' hm => ?_
    have mname : m.name = m'.name := by rw [hm, bare_mk]
    rw [mname]
    refine (declareName_mirrors strict right h ht.line m'.name).bind fun e e' he => .pure ?_
    exact ⟨by simp [he.message, hm, bare_mk], he.names, he.lines⟩
  · refine (enumeration_mirrors strict right room).bind fun e e' he => ?_
    subst he
    refine (declareName_mirrors strict right h ht.line e'.name).bind fun a a' ha => .pure ?_
    exact ⟨by simp [ha.message, bare_mk], ha.names, ha.lines⟩
  · refine (optionStatement_mirrors strict right room).andThen fun o => .pure ?_
    exact ⟨by simp [h.message, bare_mk], h.names, h.lines⟩
  · refine (oneofGroup_mirrors strict right room).bind fun o o' ho => ?_
    subst ho
    refine (declareName_mirrors strict right h ht.line o'.name).bind fun a a' ha => ?_
    refine (declareFields_mirrors strict right ha ht.line o'.fields).bind fun b b' hb => .pure ?_
    exact ⟨by simp [hb.message, bare_mk], hb.names, hb.lines⟩
  · refine (reserved_mirrors strict right _).andThen fun r => .pure ?_
    exact ⟨by simp [h.message, bare_mk], h.names, h.lines⟩
  · exact unsupported
  · exact unsupported
  · exact advance_mirrors.skip (.pure h)
  · rw [name]
    exact .unexpected ht
  · refine (field_mirrors strict right room none).bind fun f f' hf => ?_
    subst hf
    exact declareField_mirrors strict right h ht.line f'

theorem messageBlock_mirrors (room : Nat) {nested nested' : Parser Message}
    (hnested : Mirrors moved left (fun a b => a = b.bare) nested nested') (name : String)
    (before : List Comment) :
    Mirrors moved left (fun a b => a = b.bare) (messageBlock ⟨strict, left⟩ room nested name [])
      (messageBlock ⟨strict, right⟩ room nested' name before) := by
  refine (expectSign_mirrors _).skip ?_
  refine (Mirrors.block (messageItem_mirrors strict right room hnested) ?_).bind fun d d' hd => ?_
  · exact ⟨by simp [bare_mk], rfl, fun _ => rfl⟩
  · refine (checkReserved_mirrors strict right hd).skip ?_
    refine lastSign_mirrors strict right _ fun _ => ?_
    simp [hd.message, bare_mk]

/-- Messages are the same but for the comments at every depth. -/
theorem message_mirrors (room : Nat) :
    Mirrors moved left (fun a b => a = b.bare) (message ⟨strict, left⟩ room)
      (message ⟨strict, right⟩ room) := by
  induction room with
  | zero =>
      refine takeComments_mirrors strict right fun _ => (expectKeyword_mirrors _).skip ?_
      refine (expectName_mirrors _).andToken fun name _ _ ht => .fail rfl fun hmoved => ?_
      rw [ht hmoved]
  | succ room ih =>
      refine takeComments_mirrors strict right fun before => (expectKeyword_mirrors _).skip ?_
      refine (expectName_mirrors _).andToken fun name _ _ _ => ?_
      exact messageBlock_mirrors strict right room ih name.text before

end Messages

/-! ### Files -/

section Files

variable {moved left : Bool} (strict right : Bool) {R : SchemaFile → SchemaFile → Prop}

theorem version_mirrors :
    Mirrors moved left Eq (version ⟨strict, left⟩) (version ⟨strict, right⟩) := by
  refine (expectKeyword_mirrors _).skip ((expectSign_mirrors _).skip ?_)
  refine (expectKind_mirrors _ _).andToken fun t pos line ht => ?_
  dsimp only [Token.moved]
  split
  · refine .fail rfl fun hmoved => ?_
    rw [← ht hmoved]
    rfl
  · exact lastSign_mirrors strict right _ fun _ => rfl

theorem package_mirrors :
    Mirrors moved left Eq (package ⟨strict, left⟩) (package ⟨strict, right⟩) := by
  refine (expectKeyword_mirrors _).skip (fullIdent_blind.andThen fun name => ?_)
  exact lastSign_mirrors strict right _ fun _ => rfl

theorem importKind_blind : Blind moved left importKind := by
  refine peek_mirrors.andToken fun t _ _ _ => ?_
  refine .ite (fun _ => advance_mirrors.skip (.pure rfl)) fun _ => ?_
  exact .ite (fun _ => advance_mirrors.skip (.pure rfl)) fun _ => .pure rfl

theorem importStatement_mirrors :
    Mirrors moved left Eq (importStatement ⟨strict, left⟩) (importStatement ⟨strict, right⟩) := by
  refine (expectKeyword_mirrors _).skip (importKind_blind.andThen fun kind => ?_)
  refine stringValue_blind.andThen fun path => ?_
  exact lastSign_mirrors strict right _ fun _ => rfl

/-- A relation between files that the statements which are read into both of them keep. -/
structure HeaderStable (R : SchemaFile → SchemaFile → Prop) : Prop where
  packaged {f g : SchemaFile} (h : R f g) : f.package.isSome = g.package.isSome
  package {f g : SchemaFile} (h : R f g) (name : String) :
    R { f with package := some name } { g with package := some name }
  imports {f g : SchemaFile} (h : R f g) (i : Import) :
    R { f with imports := f.imports ++ [i] } { g with imports := g.imports ++ [i] }
  options {f g : SchemaFile} (h : R f g) (o : SchemaOption) :
    R { f with options := f.options ++ [o] } { g with options := g.options ++ [o] }

/-- Equality is a relation that the statements of a header keep. -/
theorem eq_headerStable : HeaderStable Eq := by
  constructor <;> (rintro f g rfl; simp)

/-- A statement of the header is entered in two related files. -/
theorem headerItem_mirrors (hR : HeaderStable R) (f g : SchemaFile) (t : Token) (pos : Position)
    (line : Nat) (ht : Stays moved t pos line) (h : R f g.bare) :
    Mirrors moved left (fun f g => R f g.bare) (headerItem ⟨strict, left⟩ f t)
      (headerItem ⟨strict, right⟩ g (t.moved pos line)) := by
  have packaged : f.package.isSome = g.package.isSome := (hR.packaged h).trans rfl
  unfold headerItem
  dsimp only [Token.moved]
  rw [packaged]
  split
  · refine .ite (fun _ => .fail rfl fun hmoved => ?_) fun _ => ?_
    · rw [ht.line hmoved]
    · exact (package_mirrors strict right).andThen fun name => .pure (hR.package h name)
  · exact (importStatement_mirrors strict right).andThen fun i => .pure (hR.imports h i)
  · exact (optionStatement_mirrors strict right maxDepth).andThen
      fun o => .pure (hR.options h o)
  · exact advance_mirrors.skip (.pure h)

/-- Statements of a header are read into related files. -/
theorem headerItems_mirrors (hR : HeaderStable R) {f g : SchemaFile} (h : R f g.bare) :
    Mirrors moved left (fun f g => R f g.bare)
      (iterate isHeaderStart (headerItem ⟨strict, left⟩) f)
      (iterate isHeaderStart (headerItem ⟨strict, right⟩) g) :=
  .iterate (fun _ _ _ => rfl) (headerItem_mirrors strict right hR) h

theorem header_mirrors :
    Mirrors moved left (fun a b => a = b.bare) (header ⟨strict, left⟩)
      (header ⟨strict, right⟩) := by
  refine peek_mirrors.andToken fun t _ _ _ => .ite (fun _ => ?_) fun _ => ?_
  · exact (version_mirrors strict right).andThen
      fun v => headerItems_mirrors strict right eq_headerStable rfl
  · exact headerItems_mirrors strict right eq_headerStable rfl

/-- A relation between files that the definitions which are read into both of them keep. In strict
mode both must define the same names. -/
structure Stable (strict : Bool) (R : SchemaFile → SchemaFile → Prop) : Prop where
  defines {f g : SchemaFile} (h : R f g) (hstrict : strict = true) : defines f = defines g
  services {f g : SchemaFile} (h : R f g) (s : Service) :
    R { f with services := f.services ++ [s] } { g with services := g.services ++ [s] }
  messages {f g : SchemaFile} (h : R f g) (m : Message) :
    R { f with messages := f.messages ++ [m] } { g with messages := g.messages ++ [m] }
  enums {f g : SchemaFile} (h : R f g) (e : Enumeration) :
    R { f with enums := f.enums ++ [e] } { g with enums := g.enums ++ [e] }

/-- Equality is a relation that definitions keep. -/
theorem eq_stable : Stable strict Eq := by
  constructor <;> (rintro f g rfl; simp)

/-- Which names a file defines does not depend on its comments. -/
theorem defines_bare (f : SchemaFile) (name : String) : defines f.bare name = defines f name := by
  have messages : (f.messages.map Message.bare).any (·.name = name) =
      f.messages.any (·.name = name) := by
    simp [List.any_map, Function.comp_def, bare_mk]
  unfold defines
  rw [← messages]
  simp only [SchemaFile.bare, List.any_map]
  rfl

/-- A definition is entered in two related files if its name is taken in both or in neither one. -/
theorem definition_mirrors (hR : Stable strict R) (f g : SchemaFile) (t : Token) (pos : Position)
    (line : Nat) (ht : Stays moved t pos line) (h : R f g.bare) :
    Mirrors moved left (fun f g => R f g.bare) (definition ⟨strict, left⟩ f t)
      (definition ⟨strict, right⟩ g (t.moved pos line)) := by
  have named (name : String) : Mirrors moved left Eq
      (declare ⟨strict, left⟩ (defines f name) (.named name) t.pos.line)
      (declare ⟨strict, right⟩ (defines g name) (.named name) pos.line) := by
    cases strict with
    | false => exact .pure rfl
    | true =>
        rw [hR.defines h rfl, defines_bare]
        exact declare_mirrors true right _ _ ht.line
  unfold definition
  dsimp only [Token.moved]
  split
  · refine (service_mirrors strict right).bind fun s s' hs => ?_
    subst hs
    refine (named s'.name).skip (.pure ?_)
    simpa [SchemaFile.bare] using hR.services h s'.bare
  · refine (message_mirrors strict right maxDepth).bind fun m m' hm => ?_
    have name : m.name = m'.name := by rw [hm, bare_mk]
    rw [name]
    refine (named m'.name).skip (.pure ?_)
    simpa [SchemaFile.bare, hm] using hR.messages h m'.bare
  · refine (enumeration_mirrors strict right maxDepth).bind fun e e' he => ?_
    subst he
    refine (named e'.name).skip (.pure ?_)
    simpa [SchemaFile.bare] using hR.enums h e'.bare
  · exact advance_mirrors.skip (.pure h)
  · refine .fail rfl fun hmoved => ?_
    rw [ht.line hmoved]
  · refine .fail rfl fun hmoved => ?_
    rw [← ht hmoved]
    rfl

/-- Definitions are read into related files. -/
theorem definitions_mirrors (hR : Stable strict R) {f g : SchemaFile} (h : R f g.bare) :
    Mirrors moved left (fun f g => R f g.bare)
      (iterate (fun t => t.kind ≠ .eof) (definition ⟨strict, left⟩) f)
      (iterate (fun t => t.kind ≠ .eof) (definition ⟨strict, right⟩) g) :=
  .iterate (fun _ _ _ => rfl) (definition_mirrors strict right hR) h

/-- With comments and without them, the same file is read but for its comments. -/
theorem file_mirrors :
    Mirrors moved left (fun a b => a = b.bare) (file ⟨strict, left⟩) (file ⟨strict, right⟩) :=
  (header_mirrors strict right).bind fun _ _ hf => definitions_mirrors strict right (eq_stable _) hf

end Files

end ProtoRoutes.Grammar
