import ProtoRoutes.Proofs.Grammar.RoundTrip.Services

/-!
# ProtoRoutes.Proofs.Grammar.RoundTrip.Messages

The words of enums and messages are read back, in lenient mode.

The fields of a message and its oneofs are written as members, which `weave` puts in order. The
members hold the fields of the message, one after the other, and its oneofs (`weave_spec`), so that
reading them makes the same two lists again.
-/

namespace ProtoRoutes.Grammar

open Source (Word isIdent isIdent_keyword wordKind_keyword)

variable {mode : Mode}

/-! ### Reserved statements -/

theorem intWords_starts (n : Int) :
    Starts (fun k => k = .punct .minus ∨ k = .number) (intWords n) := by
  unfold intWords
  split
  · exact .cons (.inl rfl)
  · exact .cons (.inr rfl)

/-- The end of a range is always printed, also where it is the first number. -/
theorem rangeEnd_reads (limit first : Int) {last : Int} (h : IsShort last.natAbs) :
    Consumes (· = last) (.name "to" :: intWords last) (rangeEnd limit first) := by
  unfold rangeEnd
  refine peek_reads fun t ht => ?_
  have kind : t.kind = .ident := (kind_of_shape ht).trans (by decide)
  have word : t.isWord "to" = true := by simp [Token.isWord, kind, text_of_shape ht, Word.shape]
  rw [if_pos word]
  have ident : isIdent "to" = true := by decide
  refine (advance_reads (w := .name "to") ident).token fun _ _ => ?_
  refine peek_starts _ (intWords_starts last) fun u hu => ?_
  have other : u.isWord "max" = false := by
    rcases hu with hu | hu
    · simp [Token.isWord, hu]
    · simp [Token.isWord, hu]
  rw [if_neg (by simp [other])]
  exact signedInteger_reads h

theorem reservedRange_reads (limit : Int) {r : ReservedRange} (h : r.Printable) :
    Consumes (· = r) (intWords r.first ++ .name "to" :: intWords r.last) (reservedRange limit) := by
  unfold reservedRange
  refine peek_starts _ (intWords_starts r.first).append fun t _ => ?_
  refine (signedInteger_reads h.first).andThen fun first hfirst => ?_
  refine (rangeEnd_reads limit first h.last).finish fun last hlast => ?_
  rw [hfirst, hlast, if_neg (by simpa using h.nonempty)]
  exact .pure rfl

/-- A list with one item. -/
theorem commaSeparated_single {α : Type} {next mid : TokenKind → Prop} {item : Parser α} {a : α}
    {ws : List Word} (hitem : Reads mid (· = a) ws item) (hcomma : mid (.punct .comma))
    (hmid : ∀ k, next k → mid k) (hstop : ∀ k, next k → k ≠ .punct .comma) :
    Reads next (· = [a]) ws (commaSeparated item) := by
  have one := @commaSeparated_reads α next mid item (fun _ => ws) a [] (fun b hb => by
    rwa [List.mem_singleton.mp hb]) hcomma hmid hstop
  rwa [commaWords, List.flatMap_nil, List.append_nil] at one

/-- Each range has a statement of its own. -/
theorem reserved_range (mode : Mode) (limit : Int) {r : ReservedRange} (h : r.Printable) :
    Consumes (· = ⟨[r], []⟩) r.statement (reserved mode limit) := by
  have words : r.statement = Keyword.reservedKw.word ::
      ((intWords r.first ++ .name "to" :: intWords r.last) ++ [.sign .semicolon]) := by
    simp [ReservedRange.statement]
  have ranges : Reads (· = .punct .semicolon) (· = [r])
      (intWords r.first ++ .name "to" :: intWords r.last) (commaSeparated (reservedRange limit)) :=
    commaSeparated_single (reservedRange_reads limit h) trivial (fun _ _ => trivial) (by simp)
  rw [words]
  unfold reserved
  refine (expectKeyword_reads .reservedKw).token fun _ _ => ?_
  refine peek_starts _ (intWords_starts r.first).append.append fun t ht => ?_
  have other : t.kind ≠ .string := by rcases ht with ht | ht <;> simp [ht]
  rw [if_neg other]
  refine ranges.before (.cons rfl) fun made hmade => ?_
  refine (expectSign_reads .semicolon).token fun _ _ => ?_
  exact (takeTrailing_reads mode).quiet fun _ _ => .pure (by rw [hmade])

theorem reserved_name (mode : Mode) (limit : Int) (name : String) :
    Consumes (· = ⟨[], [name]⟩) (reservedNameStatement name) (reserved mode limit) := by
  have names : Reads (· = .punct .semicolon) (· = [name]) [.quoted name]
      (commaSeparated stringValue) :=
    commaSeparated_single (stringValue_reads name) (by simp) (by simp) (by simp)
  unfold reserved
  refine (expectKeyword_reads .reservedKw).token fun _ _ => ?_
  refine peek_reads fun t ht => ?_
  have kind : t.kind = .string := kind_of_shape ht
  rw [if_pos kind]
  refine names.before (.cons rfl) fun made hmade => ?_
  refine (expectSign_reads .semicolon).token fun _ _ => ?_
  exact (takeTrailing_reads mode).quiet fun _ _ => .pure (by rw [hmade])

/-! ### Enums -/

theorem text_of_wordKind {text : String} {k : Keyword} (h : Source.wordKind text = .keyword k) :
    text = k.text := by
  unfold Source.wordKind at h
  cases hfound : Keyword.ofText? text with
  | none => rw [hfound] at h; cases h
  | some k' =>
      rw [hfound] at h
      cases h
      have found := List.find?_some hfound
      exact (of_decide_eq_true found).symm

/-- An enum value is read back from its words. -/
theorem enumValue_reads (mode : Mode) {room : Nat} {v : EnumValue} (h : v.Printable room) :
    Consumes (· = v) v.words (enumValue mode room) := by
  unfold enumValue EnumValue.words
  refine (takeComments_reads mode).quiet fun comments hcomments => ?_
  refine (expectName_reads h.name).token fun name hname => ?_
  refine (expectSign_reads .equals).token fun _ _ => ?_
  refine (signedInteger_reads h.number).andThen fun number hnumber => ?_
  refine (inlineOptions_reads h.options).before (.cons (by simp [Word.shape]))
    fun options hoptions => ?_
  refine (expectSign_reads .semicolon).token fun _ _ => ?_
  refine (takeTrailing_reads mode).quiet fun trailing htrailing => .pure ?_
  rw [hcomments, hname, hnumber, hoptions, htrailing, List.append_nil, ← h.comments]

/-- An option of an enum. -/
def enumOption (o : SchemaOption) : Clause Enumeration :=
  ⟨o.statement, fun e => some { e with options := e.options ++ [o] }⟩

/-- Numbers that an enum reserves. -/
def enumRange (r : ReservedRange) : Clause Enumeration :=
  ⟨r.statement, fun e => some { e with reservedRanges := e.reservedRanges ++ [r] }⟩

/-- A name that an enum reserves. -/
def enumReserved (name : String) : Clause Enumeration :=
  ⟨reservedNameStatement name, fun e => some { e with reservedNames := e.reservedNames ++ [name] }⟩

/-- A value of an enum. -/
def enumMember (v : EnumValue) : Clause Enumeration :=
  ⟨v.words, fun e => some { e with values := e.values ++ [v] }⟩

theorem enumItem_option {room : Nat} {o : SchemaOption} (h : o.Printable room) :
    (enumOption o).ReadBy (· ≠ .punct .rbrace) id (enumItem mode room) := by
  refine .item (by simp) (optionStatement_reads mode h) (fun _ _ kind => by rw [enumItem, kind])
    fun _ _ => ?_
  exact .pure (by rfl)

theorem enumItem_range {room : Nat} {r : ReservedRange} (h : r.Printable) :
    (enumRange r).ReadBy (· ≠ .punct .rbrace) id (enumItem mode room) := by
  refine .item (by simp) (reserved_range mode _ h) (fun _ _ kind => by rw [enumItem, kind])
    fun _ _ => ?_
  exact .pure (by simp)

theorem enumItem_reserved {room : Nat} (name : String) :
    (enumReserved name).ReadBy (· ≠ .punct .rbrace) id (enumItem mode room) := by
  refine .item (by simp) (reserved_name mode _ name) (fun _ _ kind => by rw [enumItem, kind])
    fun _ _ => ?_
  exact .pure (by simp)

/-- In lenient mode a value is always added. -/
theorem enumItem_member (hmode : mode.strict = false) {room : Nat} {v : EnumValue}
    (h : v.Printable room) :
    (enumMember v).ReadBy (· ≠ .punct .rbrace) id (enumItem mode room) := by
  refine ⟨.cons (wordKind_ne_punct v.name .rbrace), fun e t b hb ht => ?_⟩
  cases hb
  obtain ⟨w, ws, heq, kind⟩ := ht
  cases heq
  have name : t.kind = Source.wordKind v.name := kind
  -- Every keyword is a name, and two of them start something else.
  unfold enumItem
  split
  · next hkind => exact absurd (text_of_wordKind (name.symm.trans hkind)) h.notOption
  · next hkind => exact absurd (text_of_wordKind (name.symm.trans hkind)) h.notReserved
  · next hkind => exact absurd (name.symm.trans hkind) (wordKind_ne_punct _ _)
  · next hkind => exact absurd (name.symm.trans hkind) (wordKind_ne _ (by simp) (by simp))
  · refine (enumValue_reads mode h).finish fun made hmade => ?_
    exact (declare_reads hmode _ _ _).quiet fun _ _ => .pure (by rw [hmade]; rfl)

/-- An enum is read back from its words. -/
theorem enumeration_reads (hmode : mode.strict = false) {room : Nat} {e : Enumeration}
    (h : e.Printable room) : Consumes (· = e) e.words (enumeration mode room) := by
  obtain ⟨name, values, options, comments, ranges, names⟩ := e
  obtain rfl : comments = [] := h.comments
  have clauses : ∀ i ∈ options.map enumOption ++ (ranges.map enumRange ++ (names.map enumReserved ++
      values.map enumMember)), i.ReadBy (· ≠ .punct .rbrace) id (enumItem mode room) := by
    simp only [List.forall_mem_append, List.forall_mem_map]
    exact ⟨fun o ho => enumItem_option (h.options o ho),
      fun r hr => enumItem_range (h.reservedRanges r hr), fun s _ => enumItem_reserved s,
      fun v hv => enumItem_member hmode (h.values v hv)⟩
  have made : Makes (options.map enumOption ++ (ranges.map enumRange ++ (names.map enumReserved ++
      values.map enumMember))) ⟨name, [], [], [], [], []⟩
      ⟨name, values, options, [], ranges, names⟩ :=
    (Makes.grow (fun l => Enumeration.mk name [] l [] [] []) fun _ _ _ => rfl).append <|
      (Makes.grow (fun l => Enumeration.mk name [] options [] l []) fun _ _ _ => rfl).append <|
      (Makes.grow (fun l => Enumeration.mk name [] options [] ranges l) fun _ _ _ => rfl).append <|
      Makes.grow (fun l => Enumeration.mk name l options [] ranges names) fun _ _ _ => rfl
  have body := block_clauses clauses made
  simp only [List.flatMap_append, List.flatMap_map] at body
  unfold enumeration
  refine declaration_reads h.name (fun t ht => ?_) (by rfl)
  rw [ht]
  exact body

/-! ### Types of fields -/

theorem ofText?_text (s : Scalar) : Scalar.ofText? s.text = some s := by
  cases s <;> decide

theorem isIdent_scalar (s : Scalar) : isIdent s.text = true := by
  cases s <;> decide

/-- The names of scalar types are no keywords. -/
theorem wordKind_scalar (s : Scalar) : Source.wordKind s.text = .ident := by
  cases s <;> decide

/-- A name with a dot in front of it is no scalar. -/
theorem ofText?_rooted {name : String} (h : name.toList.head? = some '.') :
    Scalar.ofText? name = none := by
  unfold Scalar.ofText?
  rw [List.find?_eq_none]
  intro s _ hs
  have start : s.text.toList.head? ≠ some '.' := by cases s <;> decide
  rw [of_decide_eq_true hs] at start
  exact start h

/-- A type name ends where no dot follows. -/
theorem plainType_reads {t : PlainType} (h : t.Printable) :
    Reads (· ≠ .punct .dot) (· = t) t.words plainType := by
  unfold plainType
  cases t with
  | scalar s =>
      refine (typeName_plain (isIdent_scalar s)).finish fun name hname => .pure ?_
      rw [hname, PlainType.ofName, ofText?_text]
  | ref r =>
      refine (typeName_reads h.1).finish fun name hname => .pure ?_
      rw [PlainType.ofName, ofText?_rooted hname.2, ← h.2, hname.1]

/-- What the type of a field starts with. -/
def StartsType (k : TokenKind) : Prop :=
  k = .punct .dot ∨ k = .ident ∨ k = .keyword .mapKw

theorem plainType_starts (t : PlainType) :
    Starts (fun k => k = .punct .dot ∨ k = .ident) t.words := by
  cases t with
  | scalar s => exact .cons (.inr (wordKind_scalar s))
  | ref r => exact .cons (.inl rfl)

theorem fieldType_starts (t : FieldType) : Starts StartsType t.words := by
  cases t with
  | plain t => exact (plainType_starts t).mono fun k hk => hk.imp id .inl
  | map key value => exact .keyword (.inr (.inr rfl)) _

theorem mapType_reads {key : Scalar} {value : PlainType} (hkey : key.isMapKey = true)
    (hvalue : value.Printable) :
    Consumes (· = .map key value) (FieldType.map key value).words mapType := by
  unfold mapType FieldType.words
  refine (expectKeyword_reads .mapKw).token fun _ _ => ?_
  refine (expectSign_reads .langle).token fun _ _ => ?_
  refine peek_reads fun t _ => ?_
  have scalar : Reads (· ≠ .punct .dot) (· = .scalar key) [.name key.text] plainType :=
    plainType_reads (t := .scalar key) trivial
  refine scalar.before (.cons (by simp [Word.shape])) fun k hk => ?_
  subst hk
  simp only [hkey, if_true]
  refine (expectSign_reads .comma).token fun _ _ => ?_
  refine (plainType_reads hvalue).before (.cons (by simp [Word.shape])) fun v hv => ?_
  exact (expectSign_reads .rangle).token fun _ _ => .pure (by rw [hv])

/-- A type is read back under the label it is printed with. -/
theorem fieldType_reads {label : Label} {t : FieldType} (h : t.Printable label) :
    Reads (· ≠ .punct .dot) (· = t) t.words (fieldType label) := by
  unfold fieldType
  cases t with
  | plain p =>
      refine peek_starts _ (plainType_starts p) fun t ht => ?_
      refine peekSecond_any fun u => ?_
      have plain : Reads (· ≠ .punct .dot) (· = FieldType.plain p) p.words
          (FieldType.plain <$> plainType) :=
        (plainType_reads h).map fun a ha => by rw [ha]
      rcases ht with ht | ht
      · rw [ht]
        exact plain
      · rw [ht]
        exact plain
  | map key value =>
      obtain ⟨hkey, hvalue, hlabel⟩ := h
      refine peek_reads fun t ht => ?_
      refine peekSecond_reads fun u hu => ?_
      have kind : t.kind = .keyword .mapKw := (kind_of_shape ht).trans (wordKind_keyword .mapKw)
      have angle : u.isPunct .langle = true := by simp [Token.isPunct, kind_of_shape hu, Word.shape]
      rw [kind]
      simp only [angle, hlabel]
      exact (mapType_reads hkey hvalue).anywhere

/-! ### Fields -/

/-- Members of a oneof have no label. -/
theorem fieldLabel_reads {inOneof : Bool} {label : Label} (h : inOneof = true → label = .optional) :
    Reads StartsType (· = label) label.words (fieldLabel inOneof) := by
  -- A word in front of a field, which a member of a oneof has not.
  have word : ∀ k, label ≠ .optional → label.words = [k.word] →
      (∀ t : Token, t.kind = .keyword k → label? t = some label) →
        Reads StartsType (· = label) label.words (fieldLabel inOneof) := by
    intro k hlabel hwords hlabel?
    have free : inOneof = false := by
      cases inOneof with
      | true => exact absurd (h rfl) hlabel
      | false => rfl
    rw [hwords]
    unfold fieldLabel
    refine peek_reads fun t ht => ?_
    rw [hlabel? t ((kind_of_shape ht).trans (wordKind_keyword k)), free]
    exact (advance_reads (w := k.word) (isIdent_keyword k)).token fun _ _ => .pure rfl
  cases label with
  | optional =>
      unfold fieldLabel
      refine peek_ahead ⟨.ident, .inr (.inl rfl)⟩ fun t ht => ?_
      have none : label? t = none := by
        unfold label?
        rcases ht with ht | ht | ht <;> rw [ht]
      rw [none]
      exact .pure rfl
  | required => exact word .requiredKw (by simp) rfl fun t ht => by rw [label?, ht]
  | repeated => exact word .repeatedKw (by simp) rfl fun t ht => by rw [label?, ht]

theorem fieldNumber_reads (hmode : mode.strict = false) {n : Nat} (h : IsShort n) :
    Consumes (· = n) [.number n] (fieldNumber mode) := by
  unfold fieldNumber
  refine (expectKind_reads (w := .number n) trivial rfl).token fun t ht => ?_
  rw [integer?_of_shape ht h, hmode]
  exact .pure rfl

/-- A field is read back from its words. -/
theorem field_reads (hmode : mode.strict = false) {room : Nat} {f : Field} (h : f.Printable room) :
    Consumes (· = f) f.words (field mode room f.oneof) := by
  unfold field Field.words
  refine (takeComments_reads mode).quiet fun comments hcomments => ?_
  refine (fieldLabel_reads h.label).before (fieldType_starts f.type).append fun label hlabel => ?_
  rw [hlabel]
  refine (fieldType_reads h.type).before (.cons (wordKind_ne_punct _ _)) fun type htype => ?_
  refine (expectName_reads h.name).token fun name hname => ?_
  refine (expectSign_reads .equals).token fun _ _ => ?_
  refine (fieldNumber_reads hmode h.number).token fun number hnumber => ?_
  refine (inlineOptions_reads h.options).before (.cons (by simp [Word.shape]))
    fun options hoptions => ?_
  refine (expectSign_reads .semicolon).token fun _ _ => ?_
  refine (takeTrailing_reads mode).quiet fun trailing htrailing => .pure ?_
  rw [hcomments, htype, hname, hnumber, hoptions, htrailing, List.append_nil, ← h.comments]

/-- What a field starts with. -/
def StartsField (k : TokenKind) : Prop :=
  StartsType k ∨ k = .keyword .requiredKw ∨ k = .keyword .repeatedKw

theorem field_starts (f : Field) : Starts StartsField f.words := by
  unfold Field.words
  cases f.label with
  | optional => exact ((fieldType_starts f.type).mono fun _ hk => .inl hk).append
  | required => exact .keyword (.inr (.inl rfl)) _
  | repeated => exact .keyword (.inr (.inr rfl)) _

theorem field_ne_rbrace (f : Field) : Starts (· ≠ .punct .rbrace) f.words := by
  refine (field_starts f).mono fun k hk => ?_
  rcases hk with (rfl | rfl | rfl) | rfl | rfl <;> simp

/-! ### Oneofs -/

/-- An option of a oneof. -/
def oneofOption (p : SchemaOption) : Clause Oneof :=
  ⟨p.statement, fun o => some { o with options := o.options ++ [p] }⟩

/-- A field of a oneof, which has its place in that oneof only. -/
def oneofField (f : Field) : Clause Oneof :=
  ⟨f.words, fun o =>
    if f.oneof = some o.name then some { o with fields := o.fields ++ [f] } else none⟩

theorem oneofItem_option {room : Nat} {p : SchemaOption} (h : p.Printable room) :
    (oneofOption p).ReadBy (· ≠ .punct .rbrace) id (oneofItem mode room) := by
  refine .item (by simp) (optionStatement_reads mode h) (fun _ _ kind => by rw [oneofItem, kind])
    fun _ _ => ?_
  exact .pure (by rfl)

theorem oneofItem_field (hmode : mode.strict = false) {room : Nat} {f : Field}
    (h : f.Printable room) :
    (oneofField f).ReadBy (· ≠ .punct .rbrace) id (oneofItem mode room) := by
  refine ⟨field_ne_rbrace f, fun o t b hb ht => ?_⟩
  have kind : StartsField t.kind := (field_starts f).kind ht
  have place : f.oneof = some o.name := by
    by_contra hother
    simp [oneofField, hother] at hb
  have made : b = { o with fields := o.fields ++ [f] } := by
    simpa [oneofField, place] using hb.symm
  have member := field_reads hmode h
  rw [place] at member
  have item : oneofItem mode room o t = (field mode room (some o.name) >>= fun g =>
      pure { o with fields := o.fields ++ [g] }) := by
    unfold oneofItem
    rcases kind with (kind | kind | kind) | kind | kind <;> rw [kind]
  rw [item]
  exact member.finish fun g hg => .pure (by rw [hg, made]; rfl)

/-- A oneof is read back from its words, with its members. -/
theorem oneofGroup_reads (hmode : mode.strict = false) {room : Nat} {o : Oneof}
    (h : o.Printable room) (hmember : ∀ f ∈ o.fields, f.oneof = some o.name) :
    Consumes (· = o) o.words (oneofGroup mode room) := by
  obtain ⟨name, fields, options, comments⟩ := o
  obtain rfl : comments = [] := h.comments
  have clauses : ∀ i ∈ options.map oneofOption ++ fields.map oneofField,
      i.ReadBy (· ≠ .punct .rbrace) id (oneofItem mode room) := by
    simp only [List.forall_mem_append, List.forall_mem_map]
    exact ⟨fun p hp => oneofItem_option (h.options p hp),
      fun f hf => oneofItem_field hmode (h.fields f hf)⟩
  have made : Makes (options.map oneofOption ++ fields.map oneofField) ⟨name, [], [], []⟩
      ⟨name, fields, options, []⟩ :=
    (Makes.grow (fun l => Oneof.mk name [] l []) fun _ _ _ => rfl).append <|
      Makes.grow (fun l => Oneof.mk name l options []) fun f hf _ => if_pos (hmember f hf)
  have body := block_clauses clauses made
  simp only [List.flatMap_append, List.flatMap_map] at body
  unfold oneofGroup
  refine declaration_reads h.name (fun t ht => ?_) (by rfl)
  rw [ht]
  exact body

/-! ### Members of a message -/

/-- The oneof that a member is. -/
def groupsOf : Member → List Oneof
  | .field _ => []
  | .group o => [o]

/-- A field outside of the oneofs, or a oneof with its own fields. -/
def IsMember : Member → Prop
  | .field f => f.oneof = none
  | .group o => ∀ f ∈ o.fields, f.oneof = some o.name

theorem woven_dropWhile {fields : List Field} {oneofs : List Oneof} (h : Woven fields oneofs) :
    Woven (fields.dropWhile (·.oneof.isNone)) oneofs := by
  induction h with
  | nil => exact .nil
  | field hf _ ih =>
      rw [List.dropWhile_cons_of_pos (by simp [hf])]
      exact ih
  | @group o fields oneofs ho hrest ih =>
      cases hmembers : o.fields with
      | nil =>
          -- A oneof without fields may stand anywhere, also behind the fields that are dropped.
          have empty := Woven.group ho ih
          rwa [hmembers, List.nil_append] at empty
      | cons f others =>
          have same := Woven.group ho hrest
          rw [hmembers] at ho same
          rwa [List.cons_append, List.dropWhile_cons_of_neg (by simp [ho f])]

/-- The fields of the first oneof come first, behind those outside of the oneofs. -/
theorem woven_split {fields : List Field} {o : Oneof} {oneofs : List Oneof}
    (h : Woven fields (o :: oneofs)) :
    (∀ f ∈ o.fields, f.oneof = some o.name) ∧
      ∃ rest, fields.dropWhile (·.oneof.isNone) = o.fields ++ rest ∧ Woven rest oneofs := by
  generalize hall : o :: oneofs = all at h
  induction h with
  | nil => cases hall
  | field hf _ ih =>
      rw [List.dropWhile_cons_of_pos (by simp [hf])]
      exact ih hall
  | @group o' fields oneofs' ho hrest _ =>
      cases hall
      refine ⟨ho, ?_⟩
      cases hmembers : o.fields with
      | nil => exact ⟨_, rfl, woven_dropWhile hrest⟩
      | cons f others =>
          rw [hmembers] at ho
          exact ⟨fields, by rw [List.cons_append, List.dropWhile_cons_of_neg (by simp [ho f])],
            hrest⟩

/-- Without oneofs all fields are plain. -/
theorem woven_plain {fields : List Field} (h : Woven fields []) : ∀ f ∈ fields, f.oneof = none := by
  generalize hnone : [] = oneofs at h
  induction h with
  | nil => simp
  | field hf _ ih => exact List.forall_mem_cons.mpr ⟨hf, ih hnone⟩
  | group _ _ _ => cases hnone

/-- The plain fields in front of a oneof come first, and then its members. -/
theorem weave_cons {fields rest : List Field} {o : Oneof}
    (h : fields.dropWhile (·.oneof.isNone) = o.fields ++ rest) (oneofs : List Oneof) :
    weave fields (o :: oneofs) =
      (fields.takeWhile (·.oneof.isNone)).map .field ++ .group o :: weave rest oneofs := by
  rw [weave, h, List.drop_left]

/-- The members of a message are its fields and its oneofs. -/
theorem weave_spec {fields : List Field} {oneofs : List Oneof} (h : Woven fields oneofs) :
    (weave fields oneofs).flatMap Member.fields = fields ∧
      (weave fields oneofs).flatMap groupsOf = oneofs ∧ ∀ x ∈ weave fields oneofs, IsMember x := by
  have plainFields : ∀ fs : List Field, (fs.map Member.field).flatMap Member.fields = fs := by
    intro fs
    rw [List.flatMap_map]
    exact List.flatMap_singleton' fs
  have plainGroups : ∀ fs : List Field, (fs.map Member.field).flatMap groupsOf = [] := by
    intro fs
    rw [List.flatMap_map]
    simp [groupsOf]
  induction oneofs generalizing fields with
  | nil => exact ⟨plainFields fields, plainGroups fields, List.forall_mem_map.mpr (woven_plain h)⟩
  | cons o oneofs ih =>
      -- `rest` are the fields behind those of the first oneof, and are woven with the other oneofs.
      obtain ⟨ho, rest, hrest, hwoven⟩ := woven_split h
      obtain ⟨hfields, hgroups, hmembers⟩ := ih hwoven
      rw [weave_cons hrest]
      simp only [List.flatMap_append, List.flatMap_cons, plainFields, plainGroups, hfields, hgroups,
        List.forall_mem_append, List.forall_mem_cons, List.forall_mem_map]
      refine ⟨?_, rfl, fun f hf => ?_, ho, hmembers⟩
      · rw [Member.fields, ← hrest, List.takeWhile_append_dropWhile]
      · have none := List.all_eq_true.mp List.all_takeWhile f hf
        exact Option.isNone_iff_eq_none.mp none

/-! ### Messages -/

theorem declareName_reads (hmode : mode.strict = false) (line : Nat) (d : Draft) (name : String) :
    Consumes (fun d' => d'.message = d.message) [] (d.declareName mode line name) := by
  unfold Draft.declareName
  exact (declare_reads hmode _ _ _).quiet fun _ _ => .pure rfl

/-- Nothing is read while a field is declared, and in lenient mode it is always added. -/
theorem declareField_reads (hmode : mode.strict = false) (line : Nat) (d : Draft) (f : Field) :
    Consumes (fun d' => d'.message = { d.message with fields := d.message.fields ++ [f] }) []
      (d.declareField mode line f) := by
  unfold Draft.declareField
  refine (declareName_reads hmode line d f.name).quiet fun d' hd' => ?_
  exact (declare_reads hmode _ _ _).quiet fun _ _ => .pure (by rw [hd'])

/-- Messages hold messages, so that this is no matter of definitions. -/
theorem message_eta (m : Message) :
    Message.mk m.name m.fields m.messages m.enums m.options m.comments
    m.oneofs m.reservedRanges m.reservedNames = m := by
  cases m
  rfl

theorem declareFields_reads (hmode : mode.strict = false) (line : Nat) (fields : List Field)
    (d : Draft) :
    Consumes (fun d' => d'.message = { d.message with fields := d.message.fields ++ fields }) []
      (fields.foldlM (Draft.declareField mode line) d) := by
  induction fields generalizing d with
  | nil =>
      rw [List.foldlM_nil, List.append_nil]
      exact .pure (message_eta d.message).symm
  | cons f fields ih =>
      rw [List.foldlM_cons]
      refine (declareField_reads hmode line d f).quiet fun d' hd' => ?_
      exact (ih d').mono (fun _ h => h) fun d'' hd'' => by rw [hd'', hd']; simp

/-- An option of a message. -/
def messageOption (o : SchemaOption) : Clause Message :=
  ⟨o.statement, fun m => some { m with options := m.options ++ [o] }⟩

/-- Numbers that a message reserves. -/
def messageRange (r : ReservedRange) : Clause Message :=
  ⟨r.statement, fun m => some { m with reservedRanges := m.reservedRanges ++ [r] }⟩

/-- A name that a message reserves. -/
def messageReserved (name : String) : Clause Message :=
  ⟨reservedNameStatement name, fun m => some { m with reservedNames := m.reservedNames ++ [name] }⟩

/-- A member of a message. A oneof adds its fields to those of the message. -/
def messageMember (x : Member) : Clause Message :=
  ⟨x.words,
    fun m => some { m with fields := m.fields ++ x.fields, oneofs := m.oneofs ++ groupsOf x }⟩

/-- A message in a message. -/
def messageNested (n : Message) : Clause Message :=
  ⟨n.words, fun m => some { m with messages := m.messages ++ [n] }⟩

/-- An enum in a message. -/
def messageEnum (e : Enumeration) : Clause Message :=
  ⟨e.words, fun m => some { m with enums := m.enums ++ [e] }⟩

theorem message_words (m : Message) : ∃ ws, m.words = Keyword.messageKw.word :: ws := by
  cases m
  rw [Message.words]
  exact ⟨_, rfl⟩

theorem wordsAll_eq (ms : List Message) : Message.wordsAll ms = ms.flatMap Message.words := by
  induction ms with
  | nil => rw [Message.wordsAll]; rfl
  | cons m ms ih => rw [Message.wordsAll, ih]; rfl

section Items

variable {room : Nat} {nested : Parser Message}

theorem messageItem_option {o : SchemaOption} (h : o.Printable room) :
    (messageOption o).ReadBy (· ≠ .punct .rbrace) Draft.message (messageItem mode room nested) := by
  refine .item (by simp) (optionStatement_reads mode h) (fun _ _ kind => by rw [messageItem, kind])
    fun _ _ => ?_
  exact .pure (by rfl)

theorem messageItem_range {r : ReservedRange} (h : r.Printable) :
    (messageRange r).ReadBy (· ≠ .punct .rbrace) Draft.message (messageItem mode room nested) := by
  refine .item (by simp) (reserved_range mode _ h) (fun _ _ kind => by rw [messageItem, kind])
    fun _ _ => ?_
  exact .pure (by simp)

theorem messageItem_reserved (name : String) :
    (messageReserved name).ReadBy (· ≠ .punct .rbrace) Draft.message
      (messageItem mode room nested) := by
  refine .item (by simp) (reserved_name mode _ name) (fun _ _ kind => by rw [messageItem, kind])
    fun _ _ => ?_
  exact .pure (by simp)

theorem messageItem_field (hmode : mode.strict = false) {f : Field} (h : f.Printable room)
    (hplain : f.oneof = none) :
    (messageMember (.field f)).ReadBy (· ≠ .punct .rbrace) Draft.message
      (messageItem mode room nested) := by
  refine ⟨field_ne_rbrace f, fun d t b hb ht => ?_⟩
  cases hb
  have kind : StartsField t.kind := (field_starts f).kind ht
  have plain := field_reads hmode h
  rw [hplain] at plain
  have item : messageItem mode room nested d t = (field mode room none >>= fun g =>
      d.declareField mode t.pos.line g) := by
    unfold messageItem
    rcases kind with (kind | kind | kind) | kind | kind <;> rw [kind]
  rw [item]
  refine plain.finish fun g hg => ?_
  rw [hg]
  refine (declareField_reads hmode _ d f).mono (fun _ h => h) fun d' hd' => ?_
  rw [hd']
  simp [Member.fields, groupsOf]

/-- The members of a oneof are added to the fields of the message. -/
theorem messageItem_group (hmode : mode.strict = false) {o : Oneof} (h : o.Printable room)
    (hmember : ∀ f ∈ o.fields, f.oneof = some o.name) :
    (messageMember (.group o)).ReadBy (· ≠ .punct .rbrace) Draft.message
      (messageItem mode room nested) := by
  refine .item (by simp) (oneofGroup_reads hmode h hmember) (fun _ _ kind => by
    rw [messageItem, kind])
    fun d _ => ?_
  refine (declareName_reads hmode _ d o.name).quiet fun d' hd' => ?_
  refine (declareFields_reads hmode _ o.fields d').quiet fun d'' hd'' => .pure ?_
  rw [hd'', hd']
  rfl

/-- A nested message is added whole. -/
theorem messageItem_nested (hmode : mode.strict = false) {n : Message}
    (h : Consumes (· = n) n.words nested) :
    (messageNested n).ReadBy (· ≠ .punct .rbrace) Draft.message (messageItem mode room nested) := by
  obtain ⟨ws, hws⟩ := message_words n
  unfold messageNested
  rw [hws] at h ⊢
  refine .item (by simp) h (fun _ _ kind => by rw [messageItem, kind]) fun d _ => ?_
  exact (declareName_reads hmode _ d n.name).quiet fun d' hd' => .pure (by rw [hd'])

theorem messageItem_enum (hmode : mode.strict = false) {e : Enumeration} (h : e.Printable room) :
    (messageEnum e).ReadBy (· ≠ .punct .rbrace) Draft.message (messageItem mode room nested) := by
  refine .item (by simp) (enumeration_reads hmode h) (fun _ _ kind => by rw [messageItem, kind])
    fun d _ => ?_
  exact (declareName_reads hmode _ d e.name).quiet fun d' hd' => .pure (by rw [hd'])

end Items

theorem checkReserved_reads (hmode : mode.strict = false) (d : Draft) :
    Consumes (fun _ => True) [] (checkReserved mode d) := by
  rw [checkReserved, hmode]
  exact .pure trivial

/-- The statements of a message, in the order in which they are written. -/
def messageClauses (m : Message) : List (Clause Message) :=
  m.options.map messageOption ++ (m.reservedRanges.map messageRange ++
    (m.reservedNames.map messageReserved ++ ((weave m.fields m.oneofs).map messageMember ++
      (m.messages.map messageNested ++ m.enums.map messageEnum))))

/-- The words of a message are those of its clauses, in braces. -/
theorem message_words_clauses (m : Message) :
    m.words = Keyword.messageKw.word :: .name m.name :: .sign .lbrace ::
      ((messageClauses m).flatMap Clause.words ++ [.sign .rbrace]) := by
  cases m
  rw [Message.words, wordsAll_eq]
  simp only [messageClauses, List.flatMap_append, List.flatMap_map]
  rfl

/-- The clauses make the message: the fields come out in their order, with the members of oneofs
among them. -/
theorem messageClauses_make {m : Message} (hcomments : m.comments = [])
    (hwoven : Woven m.fields m.oneofs) :
    Makes (messageClauses m) ⟨m.name, [], [], [], [], [], [], [], []⟩ m := by
  obtain ⟨name, fields, messages, enums, options, comments, oneofs, ranges, names⟩ := m
  obtain rfl : comments = [] := hcomments
  obtain ⟨hfields, hgroups, -⟩ := weave_spec hwoven
  have members : Makes ((weave fields oneofs).map messageMember)
      ⟨name, [], [], [], options, [], [], ranges, names⟩
      ⟨name, fields, [], [], options, [], oneofs, ranges, names⟩ := by
    have grown := @Makes.grow _ _ messageMember (fun l => ⟨name, l.flatMap Member.fields, [], [],
      options, [], l.flatMap groupsOf, ranges, names⟩) (weave fields oneofs) fun x _ made => by
        simp [messageMember]
    dsimp only at grown hfields hgroups
    rwa [hfields, hgroups] at grown
  exact (Makes.grow (fun l => Message.mk name [] [] [] l [] [] [] []) fun _ _ _ => rfl).append <|
    (Makes.grow (fun l => Message.mk name [] [] [] options [] [] l []) fun _ _ _ => rfl).append <|
    (Makes.grow (fun l => Message.mk name [] [] [] options [] [] ranges l) fun _ _ _ =>
    rfl).append <|
    members.append <|
    (Makes.grow (fun l => Message.mk name fields l [] options [] oneofs ranges names)
      fun _ _ _ => rfl).append <|
    Makes.grow (fun l => Message.mk name fields messages l options [] oneofs ranges names)
      fun _ _ _ => rfl

/-- A message is read back from its words, at every depth. -/
theorem message_reads (hmode : mode.strict = false) {room : Nat} {m : Message}
    (h : m.Printable room) :
    Consumes (· = m) m.words (message mode room) := by
  -- The messages inside take one level less, and so does the rule that reads them.
  induction h with
  | @mk room m hname hfields hmessages henums hoptions hcomments honeofs hwoven hranges ih =>
      obtain ⟨hall, hgroups, hproper⟩ := weave_spec hwoven
      have members : ∀ x ∈ weave m.fields m.oneofs, (messageMember x).ReadBy (· ≠ .punct .rbrace)
          Draft.message (messageItem mode room (message mode room)) := by
        intro x hx
        cases x with
        | field f =>
            have mem : f ∈ m.fields := by
              rw [← hall]
              exact List.mem_flatMap.mpr ⟨_, hx, List.mem_singleton_self f⟩
            exact messageItem_field hmode (hfields f mem) (hproper _ hx)
        | group o =>
            have mem : o ∈ m.oneofs := by
              rw [← hgroups]
              exact List.mem_flatMap.mpr ⟨_, hx, List.mem_singleton_self o⟩
            exact messageItem_group hmode (honeofs o mem) (hproper _ hx)
      have clauses : ∀ i ∈ messageClauses m, i.ReadBy (· ≠ .punct .rbrace) Draft.message
          (messageItem mode room (message mode room)) := by
        simp only [messageClauses, List.forall_mem_append, List.forall_mem_map]
        exact ⟨fun o ho => messageItem_option (hoptions o ho),
          fun r hr => messageItem_range (hranges r hr), fun s _ => messageItem_reserved s, members,
          fun n hn => messageItem_nested hmode (ih n hn),
          fun e he => messageItem_enum hmode (henums e he)⟩
      have made := messageClauses_make hcomments hwoven
      have body := block_clauses clauses (s := ⟨⟨m.name, [], [], [], [], [], [], [], []⟩, []⟩) made
      rw [message_words_clauses, message]
      refine (takeComments_reads mode).quiet fun comments hnone => ?_
      refine (expectKeyword_reads .messageKw).token fun _ _ => ?_
      refine (expectName_reads hname).token fun t ht => ?_
      unfold messageBlock
      refine (expectSign_reads .lbrace).token fun _ _ => ?_
      rw [ht, hnone]
      refine body.before (.cons rfl) fun d hd => ?_
      refine (checkReserved_reads hmode d).quiet fun _ _ => ?_
      refine (expectSign_reads .rbrace).token fun _ _ => ?_
      refine (takeTrailing_reads mode).quiet fun trailing htrailing => .pure ?_
      rw [htrailing, List.append_nil, hd]
      exact message_eta m

end ProtoRoutes.Grammar
