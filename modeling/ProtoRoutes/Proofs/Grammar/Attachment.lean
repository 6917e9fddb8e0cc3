import ProtoRoutes.Proofs.Grammar.Ledger
import ProtoRoutes.Proofs.Grammar.Strict
import ProtoRoutes.Proofs.Http.Templates

/-!
# ProtoRoutes.Proofs.Grammar.Attachment

**Where comments go.** The declarations of a file that was read can be entered in a ledger, one
entry for each, in which every comment of the tree has a comment token of the text for itself
(`exists_ledger`). There is one lemma for each rule that builds a declaration, and one for each step
of a body.

A comment in front of a declaration is told to be leading or detached by its distance alone. Other
comments that stand on the lines between are not looked at.
-/

namespace ProtoRoutes.Grammar

variable {σ : Type} {mode : Mode} {stream : TokenStream}

/-! ### Blocks -/

/-- A declaration that is a keyword, a name and a body in braces: it holds what the steps of its
body declare. -/
theorem Opens.block {comments : σ → List Comment} {parts : σ → List Element}
    {step : σ → Token → Parser σ}
    {before : List Comment} (hstep : ∀ s t, Adds mode stream comments parts s (step s t))
    (keyword : Keyword) (expected : Expected) (start : String → σ) (finish : σ → List Comment → σ)
    (hstart : ∀ name, comments (start name) = before ∧ parts (start name) = [])
    (hfinish : ∀ s found, comments (finish s found) = comments s ++ found ∧
      parts (finish s found) = parts s) :
    Opens mode stream (fun s found ds => comments s = before ++ found ∧ ds.Perm (parts s)) (do
      let _ ← expectKeyword keyword
      let name ← expectName expected
      let _ ← expectSign .lbrace
      let s ← untilBrace step (start name.text)
      let _ ← expectSign .rbrace
      let found ← takeTrailing mode
      pure (finish s found)) := by
  refine .eat (expectKeyword_marches keyword) fun _ => ?_
  refine .andThen (expectName_marches expected).steady fun name => ?_
  refine .andThen (expectSign_marches .lbrace).steady fun _ => ?_
  refine .bind (Adds.iterate hstep (start name.text)) fun s ds hs => ?_
  refine .andThen (expectSign_marches .rbrace).steady fun _ => ?_
  refine .done fun found => ?_
  obtain ⟨hcomments, hparts⟩ := hstart name.text
  obtain ⟨hcomments', hparts'⟩ := hfinish s found
  constructor
  · rw [hcomments', hs.1, hcomments]
  · rw [List.append_nil, hparts']
    simpa [hparts] using hs.2.symm

/-! ### Services -/

/-- A method is one declaration. -/
theorem method_books : Books mode stream (fun m ds => ds.Perm [.method m]) (method mode) := by
  refine Books.declaration .method (fun _ => []) (fun before => ?_) fun c m d hrun => hrun
  refine .eat (expectKeyword_marches .rpcKw) fun _ => ?_
  refine .andThen (expectName_marches .methodName).steady fun name => ?_
  refine .andThen methodType_marches.steady fun input => ?_
  refine .andThen (expectKeyword_marches .returnsKw).steady fun _ => ?_
  refine .andThen methodType_marches.steady fun output => ?_
  refine .andThen (methodBody_progresses mode).steady fun written => ?_
  refine .andThen (.defer _ _) fun _ => ?_
  exact .done fun found => ⟨rfl, .refl _⟩

/-- A step in a service adds what it declares. -/
theorem serviceItem_adds (s : Service) (t : Token) :
    Adds mode stream Service.comments Service.parts s (serviceItem mode s t) := by
  unfold serviceItem
  split
  · refine Books.bind method_books fun m ds hm => ?_
    refine .andThen (declare_progresses mode _ _ False.elim).steady fun _ => ?_
    exact Adds.declared rfl (by simp [Service.parts]) hm
  · exact .andThen (optionStatement_marches mode maxDepth).steady fun o => Adds.nothing rfl rfl
  · exact .andThen .advance fun _ => Adds.nothing rfl rfl
  · exact .fail

theorem service_books : Books mode stream (fun s ds => ds.Perm s.elements) (service mode) := by
  refine Books.declaration .service Service.parts (fun before => ?_) fun c s d hrun => hrun
  exact (Opens.block serviceItem_adds .serviceKw .serviceName (⟨·, [], [], before⟩)
    (fun s found => { s with comments := s.comments ++ found }) (fun _ => ⟨rfl, rfl⟩)
    fun _ _ => ⟨rfl, rfl⟩ :)

/-! ### Enums -/

theorem enumValue_books (room : Nat) :
    Books mode stream (fun v ds => ds.Perm [.value v]) (enumValue mode room) := by
  refine Books.declaration .value (fun _ => []) (fun before => ?_) fun c v d hrun => ⟨room, hrun⟩
  refine .eat (expectName_marches .enumValueName) fun name => ?_
  refine .andThen (expectSign_marches .equals).steady fun _ => ?_
  refine .andThen signedInteger_marches.steady fun number => ?_
  refine .andThen (inlineOptions_progresses room).steady fun options => ?_
  refine .andThen (expectSign_marches .semicolon).steady fun _ => ?_
  exact .done fun found => ⟨rfl, .refl _⟩

theorem enumItem_adds (room : Nat) (e : Enumeration) (t : Token) :
    Adds mode stream Enumeration.comments Enumeration.parts e (enumItem mode room e t) := by
  unfold enumItem
  split
  · exact .andThen (optionStatement_marches mode room).steady fun o => Adds.nothing rfl rfl
  · exact .andThen (reserved_marches mode False.elim).steady fun r => Adds.nothing rfl rfl
  · exact .andThen .advance fun _ => Adds.nothing rfl rfl
  · exact .fail
  · refine Books.bind (enumValue_books room) fun v ds hv => ?_
    refine .andThen (declare_progresses mode _ _ False.elim).steady fun _ => ?_
    exact Adds.declared rfl (by simp [Enumeration.parts]) hv

/-- An enum declares itself and its values. -/
theorem enumeration_books (room : Nat) :
    Books mode stream (fun e ds => ds.Perm e.elements) (enumeration mode room) := by
  refine Books.declaration .enumeration Enumeration.parts (fun before => ?_) fun c e d hrun =>
    ⟨room, hrun⟩
  exact (Opens.block (enumItem_adds room) .enumKw .enumName (⟨·, [], [], before, [], []⟩)
    (fun e found => { e with comments := e.comments ++ found }) (fun _ => ⟨rfl, rfl⟩)
    fun _ _ => ⟨rfl, rfl⟩ :)

/-! ### Fields and oneofs -/

/-- A field knows the oneof it is read in. -/
theorem field_ensures_oneof (room : Nat) (oneof : Option String) :
    Ensures (fun f => f.oneof = oneof) (field mode room oneof) := by
  refine .andThen _ fun before => .andThen _ fun label => .andThen _ fun type =>
    .andThen _ fun name => ?_
  refine .andThen _ fun _ => .andThen _ fun number => .andThen _ fun options =>
    .andThen _ fun _ => ?_
  exact .andThen _ fun behind => .pure rfl

theorem field_books (room : Nat) (oneof : Option String) :
    Books mode stream (fun f ds => ds.Perm [.field f]) (field mode room oneof) := by
  refine Books.declaration .field (fun _ => []) (fun before => ?_) fun c f d hrun => ⟨room, ?_⟩
  · refine .andThen (fieldLabel_progresses oneof.isSome).steady fun label => ?_
    refine .eat (fieldType_marches label) fun type => ?_
    refine .andThen (expectName_marches .fieldName).steady fun name => ?_
    refine .andThen (expectSign_marches .equals).steady fun _ => ?_
    refine .andThen (fieldNumber_marches mode).steady fun number => ?_
    refine .andThen (inlineOptions_progresses room).steady fun options => ?_
    refine .andThen (expectSign_marches .semicolon).steady fun _ => ?_
    exact .done fun found => ⟨rfl, .refl _⟩
  · rw [field_ensures_oneof room oneof c f d hrun]
    exact hrun

theorem oneofItem_adds (room : Nat) (o : Oneof) (t : Token) :
    Adds mode stream Oneof.comments Oneof.parts o (oneofItem mode room o t) := by
  unfold oneofItem
  split
  · exact .andThen (optionStatement_marches mode room).steady fun opt => Adds.nothing rfl rfl
  · exact .andThen .advance fun _ => Adds.nothing rfl rfl
  · exact .fail
  · refine Books.bind (field_books room (some o.name)) fun f ds hf => ?_
    exact Adds.declared rfl (by simp [Oneof.parts]) hf

/-- A oneof declares itself and its members. -/
theorem oneofGroup_books (room : Nat) :
    Books mode stream (fun o ds => ds.Perm (.oneof o :: o.parts)) (oneofGroup mode room) := by
  refine Books.declaration .oneof Oneof.parts (fun before => ?_) fun c o d hrun => ⟨room, hrun⟩
  exact (Opens.block (oneofItem_adds room) .oneofKw .oneofName (⟨·, [], [], before⟩)
    (fun o found => { o with comments := o.comments ++ found }) (fun _ => ⟨rfl, rfl⟩)
    fun _ _ => ⟨rfl, rfl⟩ :)

/-! ### Messages -/

/-- What stands in the middle can stand at the end. -/
theorem perm_middle_last (a x b : List Element) : (a ++ x ++ b).Perm (a ++ b ++ x) := by
  rw [List.append_assoc, List.append_assoc]
  exact List.perm_append_comm.append_left a

namespace Draft

theorem parts_withMessage (d : Draft) (m : Message) :
    (d.withMessage m).message.parts.Perm (d.message.parts ++ m.elements) := by
  simp only [withMessage, Message.parts_eq, List.flatMap_append, List.flatMap_singleton,
    ← List.append_assoc]
  exact perm_middle_last _ _ _

theorem parts_withEnum (d : Draft) (e : Enumeration) :
    (d.withEnum e).message.parts.Perm (d.message.parts ++ e.elements) := by
  simp only [withEnum, Message.parts_eq, List.flatMap_append, List.flatMap_singleton,
    ← List.append_assoc]
  exact .refl _

theorem parts_withField (d : Draft) (f : Field) :
    (d.withField f).message.parts.Perm (d.message.parts ++ [.field f]) := by
  simp only [withField, Message.parts_eq, List.map_append, List.map_singleton]
  have moved := perm_middle_last (d.message.fields.map .field) [.field f]
    (d.message.oneofs.map .oneof ++ d.message.messages.flatMap Message.elements ++
      d.message.enums.flatMap Enumeration.elements)
  simpa only [List.append_assoc] using moved

/-- The draft with the members of a oneof, which become fields of the message. -/
def withMembers (d : Draft) (fields : List Field) : Draft :=
  { d with message := { d.message with fields := d.message.fields ++ fields } }

/-- The members of a oneof are among the fields of the message, so they are entered once and as
such. -/
theorem parts_withOneof (d : Draft) (o : Oneof) :
    ((d.withMembers o.fields).withOneof o).message.parts.Perm
      (d.message.parts ++ .oneof o :: o.parts) := by
  simp only [withMembers, withOneof, Message.parts_eq, Oneof.parts, List.map_append,
    List.map_singleton]
  generalize d.message.fields.map Element.field = fields, o.fields.map Element.field = members,
    d.message.oneofs.map Element.oneof = oneofs,
    d.message.messages.flatMap Message.elements = messages,
    d.message.enums.flatMap Enumeration.elements = enums
  calc fields ++ members ++ (oneofs ++ [.oneof o]) ++ messages ++ enums
      = fields ++ members ++ (oneofs ++ [.oneof o] ++ messages ++ enums) := by simp
    List.Perm _ (fields ++ (oneofs ++ [.oneof o] ++ messages ++ enums) ++ members) :=
      perm_middle_last _ _ _
    _ = (fields ++ oneofs ++ [.oneof o] ++ (messages ++ enums)) ++ members := by simp
    List.Perm _ ((fields ++ oneofs ++ (messages ++ enums) ++ [.oneof o]) ++ members) :=
        (perm_middle_last _ _ _).append_right members
    _ = fields ++ oneofs ++ messages ++ enums ++ .oneof o :: members := by simp

end Draft

theorem declareFields_ensures_message (line : Nat) (fields : List Field) (d : Draft) :
    Ensures (fun d' => d'.message = (d.withMembers fields).message)
      (fields.foldlM (Draft.declareField mode line) d) :=
  (declareFields_progresses mode line d fields fun _ f _ => quotable_anywhere f.number).ensures

/-- A step in a message adds what it declares, up to the order of the entries. -/
theorem messageItem_adds (room : Nat) {nested : Parser Message}
    (hnested : Books mode stream (fun m ds => ds.Perm m.elements) nested) (d : Draft) (t : Token) :
    Adds mode stream (·.message.comments) (·.message.parts) d
      (messageItem mode room nested d t) := by
  have declared {β : Type} (name : String) {post : β → List Element → Prop} {f : Draft → Parser β}
      (hf : Books mode stream post (f (d.withName t.pos.line name))) :
      Books mode stream post (d.declareName mode t.pos.line name >>= f) :=
    .ensured (declareName_progresses mode t.pos.line d name).steady
      (declareName_ensures mode t.pos.line d name)
      fun d' hd' => hd' ▸ hf
  unfold messageItem
  simp only
  split
  · refine Books.bind hnested fun m ds hm => declared m.name ?_
    exact Adds.declared rfl (d.parts_withMessage m) hm
  · refine Books.bind (enumeration_books room) fun e ds he => declared e.name ?_
    exact Adds.declared rfl (d.parts_withEnum e) he
  · refine .andThen (optionStatement_marches mode room).steady fun o => Adds.nothing rfl ?_
    simp only [Message.parts_eq]
  · refine Books.bind (oneofGroup_books room) fun o ds ho => declared o.name ?_
    refine .ensured (declareFields_progresses mode _ _ o.fields False.elim).steady
      (declareFields_ensures_message _ o.fields _)
      fun d' hd' => ?_
    -- The members were entered with the oneof, and are fields of the message from here on.
    refine Adds.declared ?_ ?_ ho
    · rw [hd']
      rfl
    · rw [hd']
      exact d.parts_withOneof o
  · refine .andThen (reserved_marches mode False.elim).steady fun r => Adds.nothing rfl ?_
    simp only [Message.parts_eq]
  · exact .fail
  · exact .fail
  · exact .andThen .advance fun _ => Adds.nothing rfl rfl
  · exact .fail
  · refine Books.bind (field_books room none) fun f ds hf => ?_
    refine .steady (declareField_progresses mode t.pos.line d f False.elim).steady
      fun c d' e hrun => ?_
    rw [declareField_ensures mode t.pos.line d f c d' e hrun, List.append_nil]
    exact ⟨rfl, ((d.withName t.pos.line f.name).parts_withField f).trans (hf.symm.append_left _)⟩

theorem messageBlock_concludes (room : Nat) {nested : Parser Message}
    (hnested : Books mode stream (fun m ds => ds.Perm m.elements) nested) (name : String)
    (before : List Comment) : Concludes mode stream
      (fun m found ds => (Element.message m).comments = before ++ found ∧ ds.Perm m.parts)
      (messageBlock mode room nested name before) := by
  refine .andThen (expectSign_marches .lbrace).steady fun _ => ?_
  refine .bind (Adds.iterate (messageItem_adds room hnested)
    ⟨⟨name, [], [], [], [], before, [], [], []⟩, []⟩) fun d ds hd => ?_
  refine .andThen (checkReserved_progresses mode d False.elim).steady fun _ => ?_
  refine .andThen (expectSign_marches .rbrace).steady fun _ => ?_
  refine .done fun found => ⟨congrArg (· ++ found) hd.1, ?_⟩
  have hsame : Message.parts { d.message with comments := d.message.comments ++ found } =
      d.message.parts := by
    simp only [Message.parts_eq]
  rw [List.append_nil, hsame]
  exact hd.2.symm

/-- A message declares itself and all that is in it, at every depth. -/
theorem message_books (room : Nat) :
    Books mode stream (fun m ds => ds.Perm m.elements) (message mode room) := by
  induction room with
  | zero =>
      refine .andThen (.takeComments mode) fun _ => ?_
      refine .andThen (expectKeyword_marches .messageKw).steady fun _ => ?_
      exact .andThen (expectName_marches .messageName).steady fun _ => .fail
  | succ room ih =>
      refine Books.declaration .message Message.parts (fun before => ?_) fun c m d hrun =>
        ⟨room + 1, hrun⟩
      refine .eat (expectKeyword_marches .messageKw) fun _ => ?_
      refine .andThen (expectName_marches .messageName).steady fun name => ?_
      exact messageBlock_concludes room ih name.text before

/-! ### Files -/

theorem headerItem_adds (f : SchemaFile) (t : Token) :
    Adds mode stream (fun _ => []) SchemaFile.elements f (headerItem mode f t) := by
  unfold headerItem
  split
  · split
    · exact .fail
    · exact .andThen (package_marches mode).steady fun name => Adds.nothing rfl rfl
  · exact .andThen (importStatement_marches mode).steady fun i => Adds.nothing rfl rfl
  · exact .andThen (optionStatement_marches mode maxDepth).steady fun o => Adds.nothing rfl rfl
  · exact .andThen .advance fun _ => Adds.nothing rfl rfl

theorem header_books : Books mode stream (fun f ds => f.elements.Perm ds) (header mode) := by
  have items (f : SchemaFile) (hf : f.elements = []) :
      Books mode stream (fun f' ds => f'.elements.Perm ds)
        (iterate isHeaderStart (headerItem mode) f) :=
    (Adds.iterate headerItem_adds f).weaken fun f' ds h => by simpa [hf] using h.2
  unfold header
  refine .andThen .peek fun t => ?_
  dsimp only
  split
  · refine .andThen (version_marches mode).steady fun v => ?_
    exact items _ rfl
  · exact items _ rfl

theorem definition_adds (f : SchemaFile) (t : Token) :
    Adds mode stream (fun _ => []) SchemaFile.elements f (definition mode f t) := by
  unfold definition
  simp only
  split
  · refine Books.bind service_books fun s ds hs =>
      .andThen (declare_progresses mode _ _ False.elim).steady fun _ => ?_
    refine Adds.declared rfl ?_ hs
    simp only [SchemaFile.elements, List.flatMap_append, List.flatMap_singleton, List.append_assoc]
    simpa only [List.append_assoc] using perm_middle_last (f.services.flatMap Service.elements)
      s.elements
      (f.messages.flatMap Message.elements ++ f.enums.flatMap Enumeration.elements)
  · refine Books.bind (message_books maxDepth) fun m ds hm =>
      .andThen (declare_progresses mode _ _ False.elim).steady fun _ => ?_
    refine Adds.declared rfl ?_ hm
    simp only [SchemaFile.elements, List.flatMap_append, List.flatMap_singleton,
      ← List.append_assoc]
    exact perm_middle_last _ _ _
  · refine Books.bind (enumeration_books maxDepth) fun e ds he =>
      .andThen (declare_progresses mode _ _ False.elim).steady fun _ => ?_
    refine Adds.declared rfl ?_ he
    simp only [SchemaFile.elements, List.flatMap_append, List.flatMap_singleton,
      ← List.append_assoc]
    exact .refl _
  · exact .andThen .advance fun _ => Adds.nothing rfl rfl
  · exact .fail
  · exact .fail

/-- A file declares what its definitions declare. -/
theorem file_books : Books mode stream (fun f ds => f.elements.Perm ds) (file mode) := by
  refine Books.bind header_books fun f ds hf => ?_
  refine (Adds.iterate definition_adds f).weaken fun f' ds' h => ?_
  exact h.2.trans (hf.append_right ds')

/-- A ledger of a file: one entry for each declaration, and no token is held twice. -/
structure IsLedger (mode : Mode) (stream : TokenStream) (f : SchemaFile) (ledger : List Record) :
    Prop where
  entries : (ledger.map Record.element).Perm f.elements
  once : (ledger.flatMap Record.held).Nodup
  faithful : ∀ r ∈ ledger, r.Faithful mode stream

/-- Every file that was read has a ledger. -/
theorem exists_ledger {text : String} {f : SchemaFile} (hread : parse mode text = .ok f) :
    ∃ stream ledger, Source.tokens text = .ok stream ∧ IsLedger mode stream f ledger := by
  obtain ⟨stream, htokens, houtcome⟩ := parse_ok hread
  obtain ⟨d, hfile⟩ := readTokens_ok houtcome
  have ordered := Source.tokens_ordered htokens
  obtain ⟨-, -, ledger, booked, hperm⟩ :=
    file_books.run (.ofStream stream) f d (Cursor.ofStream_within ordered) hfile
  refine ⟨stream, ledger, htokens, hperm.symm, List.nodup_iff_count_le_one.mpr fun t => ?_,
    booked.faithful⟩
  -- The pool at the start is the stream, in which every token is once.
  have held := booked.held t
  have once := List.nodup_iff_count_le_one.mp ordered.nodup t
  rw [Cursor.ofStream_pool] at held
  omega

/-! ### Members of oneofs -/

/-- The members of the oneofs of a message are among its fields. -/
def HoldsMembers (m : Message) : Prop :=
  ∀ o ∈ m.oneofs, ∀ f ∈ o.fields, f ∈ m.fields

theorem HoldsMembers.congr {m n : Message} (h : HoldsMembers m) (hfields : m.fields ⊆ n.fields)
    (honeofs : n.oneofs = m.oneofs) : HoldsMembers n :=
  fun o ho f hf => hfields (h o (honeofs ▸ ho) f hf)

theorem HoldsMembers.withOneof {d : Draft} (h : HoldsMembers d.message) (o : Oneof) :
    HoldsMembers ((d.withMembers o.fields).withOneof o).message := by
  intro group hgroup f hf
  rcases List.mem_append.mp hgroup with hold | hnew
  · exact List.mem_append_left _ (h group hold f hf)
  · rw [List.mem_singleton.mp hnew] at hf
    exact List.mem_append_right _ hf

/-- No step in a message takes a field away or leaves out a member of a oneof. -/
theorem messageItem_ensures_members (room : Nat) (nested : Parser Message) (d : Draft) (t : Token)
    (hd : HoldsMembers d.message) :
    Ensures (fun d' => HoldsMembers d'.message) (messageItem mode room nested d t) := by
  have same {m : Message} (hfields : m.fields = d.message.fields)
      (honeofs : m.oneofs = d.message.oneofs) :
      HoldsMembers m := hd.congr (hfields ▸ List.Subset.refl _) honeofs
  unfold messageItem
  simp only
  split
  · refine .andThen nested fun m => (declareName_ensures mode t.pos.line d m.name).bind
      fun d' hd' => ?_
    exact .pure (hd' ▸ same rfl rfl)
  · refine .andThen (enumeration mode room) fun e =>
      (declareName_ensures mode t.pos.line d e.name).bind fun d' hd' => ?_
    exact .pure (hd' ▸ same rfl rfl)
  · exact .andThen (optionStatement mode room) fun _ => .pure (same rfl rfl)
  · refine .andThen (oneofGroup mode room) fun o =>
      (declareName_ensures mode t.pos.line d o.name).bind fun d' hd' => ?_
    refine (declareFields_ensures_message t.pos.line o.fields d').bind fun d'' hd'' => .pure ?_
    subst hd'
    rw [hd'']
    exact hd.withOneof o
  · exact .andThen (reserved mode maxFieldNumber) fun _ => .pure (same rfl rfl)
  · exact .fail
  · exact .fail
  · exact .andThen advance fun _ => .pure hd
  · exact .fail
  · refine .andThen (field mode room none) fun f c d' e hrun => ?_
    rw [declareField_ensures mode t.pos.line d f c d' e hrun]
    exact hd.congr (List.subset_append_left _ _) rfl

/-- The members of the oneofs of a message are among its fields. -/
theorem message_ensures_members (room : Nat) : Ensures HoldsMembers (message mode room) := by
  cases room with
  | zero => exact .andThen _ fun _ => .andThen _ fun _ => .andThen _ fun _ => .fail
  | succ room =>
      refine .andThen _ fun before => .andThen _ fun _ => .andThen _ fun name =>
        .andThen _ fun _ => ?_
      have start : HoldsMembers ⟨name.text, [], [], [], [], before, [], [], []⟩ := by
        simp [HoldsMembers]
      refine (Ensures.iterate (messageItem_ensures_members room (message mode room)) start).bind
        fun d hd => ?_
      refine .andThen _ fun _ => .andThen _ fun _ => .andThen _ fun behind => .pure ?_
      exact hd.congr (List.Subset.refl _) rfl

theorem IsLedger.holdsMembers {f : SchemaFile} {ledger : List Record}
    (h : IsLedger mode stream f ledger)
    {m : Message} (hm : .message m ∈ f.elements) : HoldsMembers m := by
  obtain ⟨r, hr, helement⟩ := List.mem_map.mp (h.entries.mem_iff.mpr hm)
  obtain ⟨c, d, ts, -, hread, -⟩ := (h.faithful r hr).read
  rw [helement] at hread
  obtain ⟨room, hread⟩ := hread
  exact message_ensures_members room c m d hread

/-! ### Where comments come from -/

/-- No comment of a tree that was read is invented or used twice. The declarations of the tree can
be entered in a ledger in which every comment has its own token of the text: a comment token that is
not blank, in front of the first token of the declaration, or behind the last one on its line, which
at most one comment of a declaration is. The members of oneofs are entered as fields of their
messages. -/
theorem comments_held_once {text : String} {f : SchemaFile} (hread : parse mode text = .ok f) :
    ∃ stream ledger, Source.tokens text = .ok stream ∧ IsLedger mode stream f ledger ∧
      (∀ r ∈ ledger, ∀ t ∈ r.comments, ∃ c ∈ t.text.toList, Text.isBlank c = false) ∧
      ∀ m, .message m ∈ f.elements → HoldsMembers m := by
  obtain ⟨stream, ledger, htokens, hledger⟩ := exists_ledger hread
  refine ⟨stream, ledger, htokens, hledger, fun r hr t ht => ?_,
    fun m hm => hledger.holdsMembers hm⟩
  obtain ⟨comment, -, attached⟩ := exists_of_mem_forall₂ (hledger.faithful r hr).attached.flip ht
  exact Source.exists_visible_of_comment htokens attached.mem attached.kind attached.shown

/-- An enum behind a comment, with one behind its value. -/
def commentedEnum : TokenStream where
  tokens :=
    [⟨.comment, "a", ⟨1, 1⟩, 1⟩, ⟨.keyword .enumKw, "enum", ⟨2, 1⟩, 2⟩, ⟨.ident, "E", ⟨2, 6⟩, 2⟩,
      ⟨.punct .lbrace, "\x7b", ⟨2, 8⟩, 2⟩, ⟨.ident, "Z", ⟨2, 10⟩, 2⟩,
      ⟨.punct .equals, "=", ⟨2, 12⟩, 2⟩,
      ⟨.number, "0", ⟨2, 14⟩, 2⟩, ⟨.punct .semicolon, ";", ⟨2, 15⟩, 2⟩, ⟨.comment, "b", ⟨2, 17⟩, 2⟩,
      ⟨.punct .rbrace, "\x7d", ⟨3, 1⟩, 3⟩]
  stop := ⟨3, 2⟩

theorem comments_held_once_enum :
    ∃ f ledger, parse ⟨true, true⟩ "// a\nenum E \x7b Z = 0; // b\n\x7d" = .ok f ∧
      f.elements.map Element.comments = [[⟨.leading, "a"⟩], [⟨.trailing, "b"⟩]] ∧
      IsLedger ⟨true, true⟩ commentedEnum f ledger := by
  have htokens : Source.tokens "// a\nenum E \x7b Z = 0; // b\n\x7d" = .ok commentedEnum := by
    decide +kernel
  have hread : ∃ f, parse ⟨true, true⟩ "// a\nenum E \x7b Z = 0; // b\n\x7d" = .ok f ∧
      f.elements.map Element.comments = [[⟨.leading, "a"⟩], [⟨.trailing, "b"⟩]] := by
    unfold parse read
    rw [htokens]
    exact ⟨_, rfl, rfl⟩
  obtain ⟨f, hf, hcomments⟩ := hread
  obtain ⟨stream, ledger, hagain, hledger, -⟩ := comments_held_once hf
  rw [htokens] at hagain
  cases hagain
  exact ⟨f, ledger, hf, hcomments, hledger⟩

/-! ### Lines between a comment and its declaration -/

/-- Every line between the end of a comment and a token has another comment on it. -/
def Covered (stream : TokenStream) (t first : Token) : Prop :=
  ∀ line, t.endLine < line → line < first.pos.line →
    ∃ u ∈ stream.tokens, u.kind = .comment ∧ u ≠ t ∧ u.pos.line ≤ line ∧ line ≤ u.endLine

/-- Where no line is between, there is nothing to cover. -/
theorem covered_of_adjacent {t first : Token} (h : first.pos.line ≤ t.endLine + 1) :
    Covered stream t first := by
  intro line hafter hbefore
  omega

/-- A comment in front of a declaration is leading if no line is between the two, and detached else.
Blank lines alone would decide the same, except where there are lines between and each of them has
another comment on it. -/
theorem leading_iff_covered_iff {text : String} {f : SchemaFile} (hread : parse mode text = .ok f) :
    ∃ stream ledger, Source.tokens text = .ok stream ∧ IsLedger mode stream f ledger ∧
      ∀ r ∈ ledger, List.Forall₂ (fun (t : Token) (c : Comment) => c.kind ≠ .trailing →
        (c.kind = .leading ↔ r.first.pos.line ≤ t.endLine + 1) ∧
        (c.kind = .detached ↔ t.endLine + 1 < r.first.pos.line) ∧
        ((c.kind = .leading ↔ Covered stream t r.first) ↔
          ¬ (t.endLine + 1 < r.first.pos.line ∧ Covered stream t r.first)))
            r.comments r.element.comments := by
  obtain ⟨stream, ledger, htokens, hledger⟩ := exists_ledger hread
  refine ⟨stream, ledger, htokens, hledger, fun r hr => ?_⟩
  refine (hledger.faithful r hr).attached.imp fun t c attached hkind => ?_
  obtain ⟨-, hleading⟩ := attached.before hkind
  have hdetached : c.kind = .detached ↔ ¬ c.kind = .leading := by
    cases hc : c.kind with
    | leading => simp
    | trailing => exact absurd hc hkind
    | detached => simp
  by_cases hgap : t.endLine + 1 < r.first.pos.line
  · have hnot : ¬ c.kind = .leading := fun h => by
      have := hleading.mp h
      omega
    simp [hdetached, hnot, hgap]
  · have hnear : r.first.pos.line ≤ t.endLine + 1 := by omega
    simp [hdetached, hleading, hgap, hnear, covered_of_adjacent hnear]

/-- Two comments on lines one after the other, and a message on the next line. -/
def stackedComments : TokenStream where
  tokens :=
    [⟨.comment, "a", ⟨1, 1⟩, 1⟩, ⟨.comment, "b", ⟨2, 1⟩, 2⟩,
      ⟨.keyword .messageKw, "message", ⟨3, 1⟩, 3⟩,
      ⟨.ident, "A", ⟨3, 9⟩, 3⟩, ⟨.punct .lbrace, "\x7b", ⟨3, 11⟩, 3⟩,
      ⟨.punct .rbrace, "\x7d", ⟨3, 12⟩, 3⟩]
  stop := ⟨3, 13⟩

theorem tokens_stackedComments :
    Source.tokens "// a\n// b\nmessage A \x7b\x7d" = .ok stackedComments := by
  decide +kernel

theorem leading_iff_covered_iff_stacked :
    ∃ f ledger, parse ⟨true, true⟩ "// a\n// b\nmessage A \x7b\x7d" = .ok f ∧
      f.elements.map Element.comments = [[⟨.detached, "a"⟩, ⟨.leading, "b"⟩]] ∧
      IsLedger ⟨true, true⟩ stackedComments f ledger ∧
      ∀ r ∈ ledger, List.Forall₂ (fun (t : Token) (c : Comment) => c.kind ≠ .trailing →
        (c.kind = .leading ↔ r.first.pos.line ≤ t.endLine + 1)) r.comments r.element.comments := by
  have hread : ∃ f, parse ⟨true, true⟩ "// a\n// b\nmessage A \x7b\x7d" = .ok f ∧
      f.elements.map Element.comments = [[⟨.detached, "a"⟩, ⟨.leading, "b"⟩]] := by
    unfold parse read
    rw [tokens_stackedComments]
    exact ⟨_, rfl, rfl⟩
  obtain ⟨f, hf, hcomments⟩ := hread
  obtain ⟨stream, ledger, hagain, hledger, hkinds⟩ := leading_iff_covered_iff hf
  rw [tokens_stackedComments] at hagain
  cases hagain
  exact ⟨f, ledger, hf, hcomments, hledger, fun r hr => (hkinds r hr).imp fun _ _ h hkind =>
    (h hkind).1⟩

/-- No blank line is between the first comment and the message, and still it is detached. -/
theorem stacked_comment_is_detached :
    ∃ f t first, parse ⟨true, true⟩ "// a\n// b\nmessage A \x7b\x7d" = .ok f ∧
      f.messages.map Message.comments = [[⟨.detached, "a"⟩, ⟨.leading, "b"⟩]] ∧
      Source.tokens "// a\n// b\nmessage A \x7b\x7d" = .ok stackedComments ∧
      stackedComments.tokens.head? = some t ∧ t.text = "a" ∧
      stackedComments.uncommented.tokens.head? = some first ∧ Covered stackedComments t first := by
  have hread : ∃ f, parse ⟨true, true⟩ "// a\n// b\nmessage A \x7b\x7d" = .ok f ∧
      f.messages.map Message.comments = [[⟨.detached, "a"⟩, ⟨.leading, "b"⟩]] := by
    unfold parse read
    rw [tokens_stackedComments]
    exact ⟨_, rfl, rfl⟩
  obtain ⟨f, hf, hcomments⟩ := hread
  refine ⟨f, _, _, hf, hcomments, tokens_stackedComments, rfl, rfl, rfl,
    fun line hafter hbefore => ?_⟩
  refine ⟨⟨.comment, "b", ⟨2, 1⟩, 2⟩, by decide, rfl, by decide, ?_, ?_⟩
  · exact hafter
  · exact Nat.le_of_lt_succ hbefore

end ProtoRoutes.Grammar
