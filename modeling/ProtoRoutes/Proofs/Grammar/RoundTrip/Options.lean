import Mathlib.Data.List.SplitBy
import ProtoRoutes.Proofs.Grammar.Printable
import ProtoRoutes.Proofs.Grammar.Reads

/-!
# ProtoRoutes.Proofs.Grammar.RoundTrip.Options

The words of names, numbers, values and options are read back.

A name is written as the words that `nameWords` cuts it into, and read by rules that put its text
together again. `nameWords_sign` is what ties them to each other: a sign in a name is a word of its
own, whatever stands around it.

Values are read with a bound on how often literals stand inside each other, which is the number of
words that are left; a literal has more words than what is inside it.
-/

namespace ProtoRoutes.Grammar

open Source (Word isIdent isWordChar isWordStart)

/-! ### Names as words -/

theorem ofChar?_char (p : Punct) : Punct.ofChar? p.char = some p := by
  cases p <;> decide

theorem isWordChar_char (p : Punct) : isWordChar p.char = false := by
  cases p <;> decide

/-- No sign starts a word. -/
theorem ofChar?_wordStart {c : Char} (h : isWordStart c = true) : Punct.ofChar? c = none := by
  unfold Punct.ofChar?
  rw [List.find?_eq_none]
  intro p _ hp
  have none : isWordStart p.char = false := by cases p <;> decide
  simp only [decide_eq_true_eq] at hp
  rw [hp, h] at none
  cases none

/-- A sign divides the words of a text. -/
theorem charWords_sign (cs ds : List Char) (p : Punct) :
    charWords (cs ++ p.char :: ds) = charWords cs ++ .sign p :: charWords ds := by
  have alone : (p.char :: ds).splitBy (fun a b => isWordChar a && isWordChar b) =
      [p.char] :: ds.splitBy fun a b => isWordChar a && isWordChar b := by
    rw [← List.singleton_append, List.splitBy_append (by simp [isWordChar_char])]
    rw [List.splitBy_of_isChain (by simp) (List.isChain_singleton _)]
    rfl
  unfold charWords
  rw [List.splitBy_append_cons _ (by simp [isWordChar_char]), alone, List.map_append, List.map_cons]
  simp only [chunkWord, ofChar?_char]

/-- An identifier is one word. -/
theorem charWords_ident {text : String} (h : isIdent text = true) :
    charWords text.toList = [.name text] := by
  unfold isIdent at h
  cases hchars : text.toList with
  | nil => rw [hchars] at h; cases h
  | cons c cs =>
      rw [hchars, Bool.and_eq_true] at h
      have start : isWordChar c = true := by
        have hstart := h.1
        simp only [isWordStart, isWordChar, Char.isAlphanum, Bool.or_eq_true] at hstart ⊢
        exact hstart.imp .inl id
      have all : ∀ d ∈ c :: cs, isWordChar d = true :=
        List.forall_mem_cons.mpr ⟨start, List.all_eq_true.mp h.2⟩
      have chain : (c :: cs).IsChain fun a b => (isWordChar a && isWordChar b) = true :=
        (List.pairwise_of_forall_mem_list fun a ha b hb => by simp [all a ha, all b hb]).isChain
      have htext : String.ofList (c :: cs) = text := by rw [← hchars, String.ofList_toList]
      unfold charWords
      rw [List.splitBy_of_isChain (by simp) chain, List.map_singleton]
      cases cs with
      | nil => rw [chunkWord, ofChar?_wordStart h.1, htext]
      | cons d cs => rw [← htext]; rfl

theorem nameWords_sign (s t : String) (p : Punct) :
    nameWords (s ++ String.singleton p.char ++ t) = nameWords s ++ .sign p :: nameWords t := by
  unfold nameWords
  rw [← charWords_sign]
  simp

/-- The words of identifiers with dots between them. -/
def dottedWords (first : String) (others : List String) : List Word :=
  .name first :: others.flatMap fun s => [.sign .dot, .name s]

/-- The words of a dotted name are its parts and the dots between them. -/
theorem nameWords_dotted {first : String} {others : List String} {text : String}
    (h : IsDotted first others text) : nameWords text = dottedWords first others := by
  obtain ⟨rfl, ident⟩ := h
  induction others generalizing first with
  | nil =>
      rw [String.intercalate_singleton]
      exact charWords_ident (ident first (by simp))
  | cons s others ih =>
      have rest := ih fun u hu => ident u (List.mem_cons_of_mem first hu)
      have head : nameWords first = [.name first] := charWords_ident (ident first (by simp))
      rw [String.intercalate_cons_cons]
      have split := nameWords_sign first (".".intercalate (s :: others)) .dot
      rw [head, rest] at split
      exact split

/-! ### Names and numbers -/

/-- A name is nothing else. -/
theorem wordKind_ne (text : String) {kind : TokenKind} (hident : kind ≠ .ident)
    (hkeyword : ∀ k, kind ≠ .keyword k) : Source.wordKind text ≠ kind := by
  rintro rfl
  rcases wordKind_cases text with hword | ⟨k, hword⟩
  · exact hident hword
  · exact hkeyword k hword

theorem wordKind_ne_punct (text : String) (p : Punct) : Source.wordKind text ≠ .punct p :=
  wordKind_ne text (by simp) (by simp)

/-- The parts of a dotted name are joined again by dots. -/
theorem fullIdent_dotted {first : String} {others : List String} {text : String}
    (h : IsDotted first others text) :
    Reads (· ≠ .punct .dot) (· = text) (dottedWords first others) fullIdent := by
  obtain ⟨rfl, ident⟩ := h
  unfold fullIdent
  refine (expectName_reads (ident first (by simp))).token fun t ht => ?_
  have rest : Reads (· ≠ .punct .dot) (· = others)
      (others.flatMap fun s => [.sign .dot, .name s])
      (many (·.isPunct .dot) do
        let _ ← advance
        let t ← expectName .identifierAfterDot
        pure t.text) := by
    refine many_reads (fun _ => True) (fun s _ => ?_) (fun s hs => ?_) (fun _ _ => trivial) ?_
    · refine .cons ⟨trivial, fun t ht => ?_⟩
      simp [Token.isPunct, ht, Word.shape]
    · refine (advance_reads (w := .sign .dot) trivial).token fun _ _ => ?_
      refine (expectName_reads (ident s (List.mem_cons_of_mem first hs))).token fun t ht => ?_
      exact .pure ht
    · intro t ht
      simpa [Token.isPunct] using ht
  exact rest.finish fun made hmade => .pure (by rw [ht, hmade])

theorem fullIdent_reads {text : String} (h : IsFullIdent text) :
    Reads (· ≠ .punct .dot) (· = text) (nameWords text) fullIdent := by
  obtain ⟨first, others, h⟩ := h
  rw [nameWords_dotted h]
  exact fullIdent_dotted h

/-- A dotted name starts with no sign. -/
theorem nameWords_starts {text : String} (h : IsFullIdent text) (p : Punct) :
    Starts (· ≠ .punct p) (nameWords text) := by
  obtain ⟨first, others, h⟩ := h
  rw [nameWords_dotted h]
  exact .cons (wordKind_ne_punct first p)

/-- A leading dot stays in the name. -/
theorem typeName_rooted {text : String} (h : IsFullIdent text) :
    Reads (· ≠ .punct .dot) (· = "." ++ text) (.sign .dot :: nameWords text) typeName := by
  unfold typeName
  refine (accept_reads .dot).token fun rooted hrooted => ?_
  exact (fullIdent_reads h).finish fun name hname => .pure (by rw [hrooted, hname]; rfl)

theorem typeName_plain {text : String} (h : isIdent text = true) :
    Reads (· ≠ .punct .dot) (· = text) [.name text] typeName := by
  have dotted : IsDotted text [] text := ⟨String.intercalate_singleton.symm, by simpa using h⟩
  unfold typeName
  refine (accept_other .dot).skip (.cons (wordKind_ne_punct text .dot)) fun rooted hrooted => ?_
  exact (fullIdent_dotted dotted).finish fun name hname => .pure (by rw [hrooted, hname]; rfl)

/-- Strings side by side would be joined, so that no other one may follow. -/
theorem stringValue_reads (text : String) :
    Reads (· ≠ .string) (· = text) [.quoted text] stringValue := by
  unfold stringValue
  refine (expectKind_reads (w := .quoted text) trivial rfl).token fun t ht => ?_
  have none : Reads (· ≠ .string) (· = []) []
      (many (·.kind = .string) do
        let t ← advance
        pure t.text) := by
    have loop := @many_reads String (· ≠ .string) (fun t => t.kind = .string) (fun _ => True)
      (do let t ← advance; pure t.text) (fun _ => []) [] (fun a ha => nomatch ha)
      (fun a ha => nomatch ha) (fun _ _ => trivial) (fun t ht => by simpa using ht)
    exact loop
  refine none.finish fun made hmade => .pure ?_
  rw [hmade, text_of_shape ht, String.intercalate_singleton]
  rfl

theorem integer?_of_shape {t : Token} {n : Nat} (ht : t.shape = (Word.number n).shape)
    (h : IsShort n) :
    Number.integer? t.text.toList = some n := by
  rw [text_of_shape ht]
  simp only [Word.shape, String.toList_ofList]
  exact Source.integer?_decimal h

/-- The sign of a negative number is a word of its own. -/
theorem signedInteger_reads {n : Int} (h : IsShort n.natAbs) :
    Consumes (· = n) (intWords n) signedInteger := by
  have number : Consumes (fun t => t.shape = (Word.number n.natAbs).shape) [.number n.natAbs]
      (expectKind .number .integer) := expectKind_reads trivial rfl
  unfold signedInteger intWords
  split
  · next hneg =>
      refine (accept_reads .minus).token fun negative hnegative => ?_
      refine number.token fun t ht => ?_
      rw [integer?_of_shape ht h, hnegative]
      exact .pure (show -(n.natAbs : Int) = n by omega)
  · next hneg =>
      refine (accept_other .minus).skip (.cons (by simp [Word.shape])) fun negative hnegative => ?_
      refine number.token fun t ht => ?_
      rw [integer?_of_shape ht h, hnegative]
      exact .pure (show (n.natAbs : Int) = n by omega)

/-! ### Names of options -/

theorem nameWords_empty : nameWords "" = [] := rfl

theorem nameWords_ident {text : String} (h : isIdent text = true) : nameWords text = [.name text] :=
  charWords_ident h

/-- A name behind a sign. -/
theorem nameWords_after (p : Punct) (s : String) :
    nameWords (String.singleton p.char ++ s) = .sign p :: nameWords s := by
  have split := nameWords_sign "" s p
  rw [String.empty_append, nameWords_empty] at split
  exact split

/-- A name between two signs. -/
theorem nameWords_between (p q : Punct) (s : String) :
    nameWords (String.singleton p.char ++ s ++ String.singleton q.char) =
      .sign p :: (nameWords s ++ [.sign q]) := by
  have back := nameWords_sign s "" q
  rw [String.append_empty, nameWords_empty] at back
  rw [String.append_assoc, nameWords_after, back]

theorem optionNamePart_reads {p : String} (h : IsOptionPart p) :
    Consumes (· = p) (nameWords p) optionNamePart := by
  unfold optionNamePart
  cases h with
  | name hs =>
      rw [nameWords_ident hs]
      refine (accept_other .lparen).skip (.cons (wordKind_ne_punct p .lparen))
        fun opened hopened => ?_
      subst hopened
      exact (expectName_reads hs).token fun t ht => .pure ht
  | @extension s hs =>
      rw [show "(" ++ s ++ ")" = String.singleton Punct.lparen.char ++ s ++
        String.singleton Punct.rparen.char from rfl, nameWords_between]
      refine (accept_reads .lparen).token fun opened hopened => ?_
      subst hopened
      refine (accept_other .dot).skip (nameWords_starts hs .dot).append fun rooted hrooted => ?_
      refine (fullIdent_reads hs).before (.cons (by simp [Word.shape])) fun name hname => ?_
      exact (expectSign_reads .rparen).token fun _ _ => .pure (by rw [hrooted, hname]; rfl)
  | @rooted s hs =>
      have words : nameWords ("(." ++ s ++ ")") =
          .sign .lparen :: .sign .dot :: (nameWords s ++ [.sign .rparen]) := by
        have between := nameWords_between .lparen .rparen ("." ++ s)
        rw [show "." ++ s = String.singleton Punct.dot.char ++ s from rfl, nameWords_after]
          at between
        rw [← String.append_assoc] at between
        exact between
      rw [words]
      refine (accept_reads .lparen).token fun opened hopened => ?_
      subst hopened
      refine (accept_reads .dot).token fun rooted hrooted => ?_
      refine (fullIdent_reads hs).before (.cons (by simp [Word.shape])) fun name hname => ?_
      exact (expectSign_reads .rparen).token fun _ _ => .pure (by rw [hrooted, hname]; rfl)

/-- What an option's name goes on with. -/
inductive IsOptionSuffix : String → Prop where
  | member {p : String} (hp : IsOptionPart p) : IsOptionSuffix ("." ++ p)
  | index {i : String} (hi : IsFullIdent i) : IsOptionSuffix ("[" ++ i ++ "]")

theorem optionNameSuffix_reads {s : String} (h : IsOptionSuffix s) :
    Consumes (· = s) (nameWords s) optionNameSuffix := by
  unfold optionNameSuffix
  cases h with
  | @member p hp =>
      rw [show "." ++ p = String.singleton Punct.dot.char ++ p from rfl, nameWords_after]
      refine (accept_reads .dot).token fun found hfound => ?_
      subst hfound
      exact (optionNamePart_reads hp).finish fun part hpart => .pure (by rw [hpart]; rfl)
  | @index i hi =>
      rw [show "[" ++ i ++ "]" = String.singleton Punct.lbracket.char ++ i ++
        String.singleton Punct.rbracket.char from rfl, nameWords_between]
      refine (accept_other .dot).skip (.cons (by simp [Word.shape])) fun found hfound => ?_
      subst hfound
      refine (expectSign_reads .lbracket).token fun _ _ => ?_
      refine (fullIdent_reads hi).before (.cons (by simp [Word.shape])) fun index hindex => ?_
      exact (expectSign_reads .rbracket).token fun _ _ => .pure (by rw [hindex]; rfl)

theorem nameWords_suffix {s : String} (h : IsOptionSuffix s) :
    Starts (fun k => k = .punct .dot ∨ k = .punct .lbracket) (nameWords s) ∧
      ∀ front, nameWords (front ++ s) = nameWords front ++ nameWords s := by
  cases h with
  | @member p hp =>
      have after := nameWords_after .dot p
      refine ⟨?_, fun front => ?_⟩
      · rw [show "." ++ p = String.singleton Punct.dot.char ++ p from rfl, after]
        exact .cons (.inl rfl)
      · rw [show "." ++ p = String.singleton Punct.dot.char ++ p from rfl, after,
          ← String.append_assoc, nameWords_sign]
  | @index i hi =>
      have after := nameWords_after .lbracket (i ++ "]")
      rw [← String.append_assoc] at after
      refine ⟨?_, fun front => ?_⟩
      · rw [show "[" ++ i ++ "]" = String.singleton Punct.lbracket.char ++ i ++ "]" from rfl, after]
        exact .cons (.inr rfl)
      · rw [show "[" ++ i ++ "]" = String.singleton Punct.lbracket.char ++ i ++ "]" from rfl, after,
          String.append_assoc, ← String.append_assoc, nameWords_sign]

/-- The name of an option as a part and what it goes on with. -/
structure OptionParts (name first : String) (suffixes : List String) : Prop where
  part : IsOptionPart first
  suffix : ∀ s ∈ suffixes, IsOptionSuffix s
  text : name = "".intercalate (first :: suffixes)
  words : nameWords name = nameWords first ++ suffixes.flatMap nameWords

theorem OptionParts.snoc {name first s : String} {suffixes : List String}
    (h : OptionParts name first suffixes) (hs : IsOptionSuffix s) :
    OptionParts (name ++ s) first (suffixes ++ [s]) where
  part := h.part
  suffix := List.forall_mem_append.mpr ⟨h.suffix, by simpa using hs⟩
  text := by
    rw [← List.cons_append, String.intercalate_append_of_ne_nil (by simp) (by simp), ← h.text]
    simp
  words := by
    rw [(nameWords_suffix hs).2, h.words]
    simp

/-- A name of an option is a first part and suffixes. -/
theorem optionName_parts {name : String} (h : IsOptionName name) :
    ∃ first suffixes, OptionParts name first suffixes := by
  induction h with
  | @part p hp => exact ⟨p, [], hp, by simp, String.intercalate_singleton.symm, by simp⟩
  | @member s p _ hp ih =>
      obtain ⟨first, suffixes, hparts⟩ := ih
      rw [String.append_assoc]
      exact ⟨first, _, hparts.snoc (.member hp)⟩
  | @index s i _ hi ih =>
      obtain ⟨first, suffixes, hparts⟩ := ih
      have assoc : s ++ "[" ++ i ++ "]" = s ++ ("[" ++ i ++ "]") := by
        simp only [String.append_assoc]
      rw [assoc]
      exact ⟨first, _, hparts.snoc (.index hi)⟩

theorem optionName_reads {name : String} (h : IsOptionName name) :
    Reads (fun k => k ≠ .punct .dot ∧ k ≠ .punct .lbracket) (· = name) (nameWords name)
      optionName := by
  obtain ⟨first, suffixes, hfirst, hsuffixes, hname, hwords⟩ := optionName_parts h
  rw [hwords]
  unfold optionName
  refine (optionNamePart_reads hfirst).andThen fun part hpart => ?_
  have rest : Reads (fun k => k ≠ .punct .dot ∧ k ≠ .punct .lbracket) (· = suffixes)
      (suffixes.flatMap nameWords)
      (many (fun t => t.isPunct .dot || t.isPunct .lbracket) optionNameSuffix) := by
    refine many_reads (fun _ => True) (fun s hs => ?_)
      (fun s hs => optionNameSuffix_reads (hsuffixes s hs)) (fun _ _ => trivial) ?_
    · refine (nameWords_suffix (hsuffixes s hs)).1.mono fun k hk => ⟨trivial, fun t ht => ?_⟩
      rcases hk with rfl | rfl
      · simp [Token.isPunct, ht]
      · simp [Token.isPunct, ht]
    · intro t ht
      simp [Token.isPunct, ht.1, ht.2]
  exact rest.finish fun made hmade => .pure (by rw [hpart, hmade, hname])

/-! ### Values -/

/-- A key in brackets is read back with them. -/
theorem literalKey_reads {key : String} (h : IsLiteralKey key) :
    Consumes (· = key) (nameWords key) literalKey := by
  unfold literalKey
  cases h with
  | name hs =>
      rw [nameWords_ident hs]
      refine (accept_other .lbracket).skip (.cons (wordKind_ne_punct key .lbracket))
        fun opened hopened => ?_
      subst hopened
      exact (expectName_reads hs).token fun t ht => .pure ht
  | @extension s hs =>
      rw [show "[" ++ s ++ "]" = String.singleton Punct.lbracket.char ++ s ++
        String.singleton Punct.rbracket.char from rfl, nameWords_between]
      refine (accept_reads .lbracket).token fun opened hopened => ?_
      subst hopened
      refine (fullIdent_reads hs).before (.cons (by simp [Word.shape])) fun name hname => ?_
      exact (expectSign_reads .rbracket).token fun _ _ => .pure (by rw [hname]; rfl)

/-- A key starts neither like the end of a literal nor like the end of the text. -/
theorem literalKey_starts {key : String} (h : IsLiteralKey key) :
    Starts (fun k => k ≠ .punct .rbrace ∧ k ≠ .eof) (nameWords key) := by
  cases h with
  | name hs =>
      rw [nameWords_ident hs]
      exact .cons ⟨wordKind_ne_punct key .rbrace, wordKind_ne key (by simp) (by simp)⟩
  | @extension s hs =>
      rw [show "[" ++ s ++ "]" = String.singleton Punct.lbracket.char ++ s ++
        String.singleton Punct.rbracket.char from rfl, nameWords_between]
      exact .cons ⟨by simp [Word.shape], by simp [Word.shape]⟩

/-- What may be next behind a value. -/
def EndsValue (k : TokenKind) : Prop := k ≠ .punct .dot ∧ k ≠ .string

/-- The words of a field in a message literal. -/
def literalFieldWords (field : String × Value) : List Word :=
  nameWords field.1 ++ (.sign .colon :: (field.2.words ++ [.sign .comma]))

theorem fieldWords_eq (fields : List (String × Value)) :
    Value.fieldWords fields = fields.flatMap literalFieldWords := by
  induction fields with
  | nil => rw [Value.fieldWords]; rfl
  | cons field fields ih =>
      obtain ⟨key, v⟩ := field
      rw [Value.fieldWords, ih]
      simp [literalFieldWords]

theorem itemWords_eq (items : List Value) :
    Value.itemWords items = commaWords Value.words items := by
  have later : ∀ items, Value.laterWords items =
      items.flatMap fun v => .sign .comma :: v.words := by
    intro items
    induction items with
    | nil => rw [Value.laterWords]; rfl
    | cons v items ih => rw [Value.laterWords, ih]; rfl
  cases items with
  | nil => rw [Value.itemWords]; rfl
  | cons v items => rw [Value.itemWords, later]; rfl

theorem length_le_flatMap {α : Type} {words : α → List Word} {a : α} {as : List α} (h : a ∈ as) :
    (words a).length ≤ (as.flatMap words).length :=
  (List.sublist_flatten_of_mem (List.mem_map_of_mem h)).length_le

/-- An item has no more words than the list it is in. -/
theorem length_le_commaWords {α : Type} {words : α → List Word} {a : α} {as : List α} (h : a ∈ as) :
    (words a).length ≤ (commaWords words as).length := by
  cases as with
  | nil => cases h
  | cons b as =>
      rw [commaWords, List.length_append]
      rcases List.mem_cons.mp h with rfl | h
      · omega
      · have later : (Word.sign .comma :: words a).length ≤
            (as.flatMap fun b => .sign .comma :: words b).length :=
          @length_le_flatMap α (fun b => .sign .comma :: words b) a as h
        rw [List.length_cons] at later
        omega

theorem commaSeparated_reads {α : Type} {next : TokenKind → Prop} (mid : TokenKind → Prop)
    {item : Parser α} {words : α → List Word} {a : α} {as : List α}
    (hitem : ∀ b ∈ a :: as, Reads mid (· = b) (words b) item) (hcomma : mid (.punct .comma))
    (hmid : ∀ k, next k → mid k) (hstop : ∀ k, next k → k ≠ .punct .comma) :
    Reads next (· = a :: as) (commaWords words (a :: as)) (commaSeparated item) := by
  have rest : Reads next (· = as) (as.flatMap fun b => .sign .comma :: words b)
      (many (·.isPunct .comma) do
        let _ ← advance
        item) := by
    refine many_reads mid (fun b hb => .cons ⟨hcomma, fun t ht => ?_⟩) (fun b hb => ?_) hmid ?_
    · simp [Token.isPunct, ht, Word.shape]
    · exact (advance_reads (w := .sign .comma) trivial).token fun _ _ =>
        hitem b (List.mem_cons_of_mem a hb)
    · intro t ht
      simp [Token.isPunct, hstop _ ht]
  unfold commaSeparated commaWords
  refine (hitem a List.mem_cons_self).bind (fun front hfront => ?_) fun b hb =>
    rest.finish fun made hmade => .pure (by rw [hb, hmade])
  cases as with
  | nil => exact hmid _ hfront
  | cons b as => exact hcomma

theorem literalFieldValue_reads {value : Parser Value} {v : Value} (key : String)
    (hv : Reads EndsValue (· = v) v.words value) :
    Reads EndsValue (· = v) (.sign .colon :: v.words) (literalFieldValue value key) := by
  unfold literalFieldValue
  refine (accept_reads .colon).token fun found hfound => ?_
  subst hfound
  exact hv

theorem literalSeparator_reads : Consumes (fun _ => True) [.sign .comma] literalSeparator := by
  unfold literalSeparator
  refine (accept_reads .comma).token fun found hfound => ?_
  subst hfound
  exact .pure trivial

/-- Fields with different keys are read back in their order, since none is gathered with another
one. -/
theorem literalFields_reads {value : Parser Value} {fields : List (String × Value)}
    (hkeys : ∀ f ∈ fields, IsLiteralKey f.1) (hdistinct : (fields.map Prod.fst).Nodup)
    (hvalue : ∀ f ∈ fields, Reads EndsValue (· = f.2) f.2.words value) :
    Reads (· = .punct .rbrace) (· = fields) (Value.fieldWords fields) (literalFields value) := by
  rw [fieldWords_eq]
  have loop : Reads (· = .punct .rbrace) (fun made => made ++ [] = fields)
      (fields.flatMap literalFieldWords) (literalFields value) := by
    refine untilBrace_reads (fun rest made => made ++ rest = fields) (fun f hf => ?_)
      (fun f hf rest made t hmade ht => ?_) rfl
    · exact (literalKey_starts (hkeys f hf)).append.mono fun k hk => hk.1
    · have here : t.kind ≠ .eof := ((literalKey_starts (hkeys f hf)).append.kind ht).2
      have absent : made.lookup f.1 = none := by
        rw [← hmade, List.map_append, List.map_cons, List.nodup_append] at hdistinct
        rw [List.lookup_eq_none_iff]
        intro g hg
        simpa using (hdistinct.2.2 g.1 (List.mem_map_of_mem hg) f.1 (by simp)).symm
      simp only [here, if_false]
      refine (literalKey_reads (hkeys f hf)).andThen fun key hkey => ?_
      subst hkey
      refine (literalFieldValue_reads f.1 (hvalue f hf)).before (.cons ⟨by simp [Word.shape],
        by simp [Word.shape]⟩) fun v hv => ?_
      refine literalSeparator_reads.token fun _ _ => .pure ?_
      rw [hv, Value.addField, absent]
      simpa using hmade
  exact loop.mono (fun _ h => h) fun made hmade => by rw [← hmade, List.append_nil]

/-- A literal is read back where there is room for it. -/
theorem messageLiteral_reads {value : Nat → Parser Value} {room : Nat}
    {fields : List (String × Value)} (brace : Token) (hkeys : ∀ f ∈ fields, IsLiteralKey f.1)
    (hdistinct : (fields.map Prod.fst).Nodup)
    (hvalue : ∀ f ∈ fields, Reads EndsValue (· = f.2) f.2.words (value room)) :
    Consumes (· = .message fields) (Value.fieldWords fields ++ [.sign .rbrace])
      (messageLiteral value brace (room + 1)) := by
  unfold messageLiteral
  refine (literalFields_reads hkeys hdistinct hvalue).before (.cons rfl) fun made hmade => ?_
  exact (expectSign_reads .rbrace).token fun _ _ => .pure (by rw [hmade])

theorem listLiteral_reads {value : Parser Value} {items : List Value}
    (hstart : ∀ v ∈ items, Starts (· ≠ .punct .rbracket) v.words)
    (hvalue : ∀ v ∈ items, Reads EndsValue (· = v) v.words value) :
    Consumes (· = .list items) (Value.itemWords items ++ [.sign .rbracket])
      (listLiteral value) := by
  rw [itemWords_eq]
  unfold listLiteral
  cases items with
  | nil =>
      refine peek_starts (· = .punct .rbracket) (.cons rfl) fun t ht => ?_
      rw [if_pos (by simp [Token.isPunct, ht])]
      exact (expectSign_reads .rbracket).token fun _ _ => .pure rfl
  | cons v items =>
      have start : Starts (· ≠ .punct .rbracket) (commaWords Value.words (v :: items)) :=
        (hstart v List.mem_cons_self).append
      refine peek_starts (· ≠ .punct .rbracket) start.append fun t ht => ?_
      rw [if_neg (by simp [Token.isPunct, ht])]
      have all : Reads (· = .punct .rbracket) (· = v :: items) (commaWords Value.words (v :: items))
          (commaSeparated value) := by
        refine commaSeparated_reads EndsValue hvalue ⟨by simp, by simp⟩ ?_ ?_
        · rintro k rfl
          exact ⟨by simp, by simp⟩
        · rintro k rfl
          simp
      refine all.before (.cons rfl) fun made hmade => ?_
      exact (expectSign_reads .rbracket).token fun _ _ => .pure (by rw [hmade])

/-- No value starts with the bracket that closes a list. -/
theorem value_starts {room : Nat} {v : Value} (h : v.Printable room) :
    Starts (· ≠ .punct .rbracket) v.words := by
  cases h with
  | string text => rw [Value.words]; exact .cons (by simp [Word.shape])
  | boolean b => rw [Value.words]; exact .cons (wordKind_ne_punct _ _)
  | identifier hname _ _ => rw [Value.words]; exact nameWords_starts ⟨_, _, hname⟩ .rbracket
  | list _ => rw [Value.words]; exact .cons (by simp [Word.shape])
  | message _ _ _ => rw [Value.words]; exact .cons (by simp [Word.shape])

/-- A value that starts with a name. -/
theorem valueStep_name {next : TokenKind → Prop} {post : Value → Prop} {text : String}
    {ws : List Word} {value : Nat → Parser Value} {room : Nat}
    (h : ∀ t : Token, t.shape = (Word.name text).shape → Reads next post (.name text :: ws)
      (if t.isWord "true" || t.isWord "false" then do
        let _ ← advance
        pure (.boolean (t.text = "true"))
      else if t.isName then .identifier <$> fullIdent
      else unexpected t .optionValue)) :
    Reads next post (.name text :: ws) (valueStep value room) := by
  unfold valueStep
  refine peek_reads fun t ht => ?_
  have kind : t.kind = Source.wordKind text := kind_of_shape ht
  rcases wordKind_cases text with hword | ⟨k, hword⟩
  · rw [kind, hword]
    exact h t ht
  · rw [kind, hword]
    exact h t ht

theorem valueStep_boolean {value : Nat → Parser Value} {room : Nat} (b : Bool) :
    Consumes (· = .boolean b) [.name (if b then "true" else "false")] (valueStep value room) := by
  refine valueStep_name fun t ht => ?_
  have text : t.text = if b then "true" else "false" := text_of_shape ht
  have kind : t.kind = .ident := by
    rw [kind_of_shape ht]
    cases b <;> decide
  have word : (t.isWord "true" || t.isWord "false") = true := by
    cases b <;> simp [Token.isWord, kind, text]
  rw [if_pos word]
  refine (advance_reads (w := .name (if b then "true" else "false")) ?_).token fun _ _ => .pure ?_
  · show isIdent _ = true
    cases b <;> decide
  · cases b <;> simp [text]

/-- A name that is neither of the two booleans is an identifier. -/
theorem valueStep_identifier {value : Nat → Parser Value} {room : Nat} {first : String}
    {others : List String} {name : String} (hname : IsDotted first others name)
    (htrue : first ≠ "true") (hfalse : first ≠ "false") :
    Reads EndsValue (· = .identifier name) (nameWords name) (valueStep value room) := by
  rw [nameWords_dotted hname]
  refine valueStep_name fun t ht => ?_
  have text : t.text = first := text_of_shape ht
  rw [if_neg (by simp [Token.isWord, text, htrue, hfalse]), if_pos (isName_of_shape ht)]
  exact ((fullIdent_dotted hname).mono (fun _ h => h.1) fun _ h => h).map fun a ha => by rw [ha]

/-- A value is read back, where literals may stand inside each other as often as it has words. -/
theorem valueWithin_reads {room : Nat} {v : Value} (h : v.Printable room) {bound : Nat}
    (hbound : v.words.length < bound) :
    Reads EndsValue (· = v) v.words (valueWithin bound room) := by
  induction h generalizing bound with
  | string room text =>
      obtain ⟨bound, rfl⟩ : ∃ n, bound = n + 1 := ⟨bound - 1, by omega⟩
      rw [Value.words, valueWithin, valueStep]
      refine peek_reads fun t ht => ?_
      rw [kind_of_shape ht]
      exact ((stringValue_reads text).mono (fun _ h => h.2) fun _ h => h).map fun a ha => by rw [ha]
  | boolean room b =>
      obtain ⟨bound, rfl⟩ : ∃ n, bound = n + 1 := ⟨bound - 1, by omega⟩
      rw [Value.words, valueWithin]
      exact (valueStep_boolean b).anywhere
  | identifier hname htrue hfalse =>
      obtain ⟨bound, rfl⟩ : ∃ n, bound = n + 1 := ⟨bound - 1, by omega⟩
      rw [Value.words, valueWithin]
      exact valueStep_identifier hname htrue hfalse
  | @list room items hitems ih =>
      obtain ⟨bound, rfl⟩ : ∃ n, bound = n + 1 := ⟨bound - 1, by omega⟩
      rw [Value.words] at hbound ⊢
      rw [valueWithin, valueStep]
      refine peek_reads fun t ht => ?_
      rw [kind_of_shape ht]
      refine (advance_reads (w := .sign .lbracket) trivial).token fun _ _ => ?_
      refine (listLiteral_reads (fun v hv => value_starts (hitems v hv)) fun v hv => ?_).anywhere
      refine ih v hv ?_
      have inside : v.words.length ≤ (Value.itemWords items).length := by
        rw [itemWords_eq]
        exact length_le_commaWords hv
      simp only [List.length_cons, List.length_append] at hbound
      omega
  | @message room fields hkeys hdistinct hvalues ih =>
      obtain ⟨bound, rfl⟩ : ∃ n, bound = n + 1 := ⟨bound - 1, by omega⟩
      rw [Value.words] at hbound ⊢
      rw [valueWithin, valueStep]
      refine peek_reads fun t ht => ?_
      rw [kind_of_shape ht]
      refine (advance_reads (w := .sign .lbrace) trivial).token fun _ _ => ?_
      refine (messageLiteral_reads t hkeys hdistinct fun f hf => ?_).anywhere
      refine ih f hf ?_
      have inside : (literalFieldWords f).length ≤ (Value.fieldWords fields).length := by
        rw [fieldWords_eq]
        exact length_le_flatMap hf
      rw [literalFieldWords] at inside
      simp only [List.length_cons, List.length_append] at hbound inside
      omega

/-- The bound of an option value is enough for all values, since every one takes a word. -/
theorem optionValue_reads {room : Nat} {v : Value} (h : v.Printable room) :
    Reads EndsValue (· = v) v.words (optionValue room) := by
  have within := @valueWithin_reads room v h
  refine ⟨(within (Nat.lt_succ_self _)).sound, ⟨v, rfl⟩, fun c rest hc hshapes hrest => ?_⟩
  refine (within ?_).run c rest hc hshapes hrest
  have length := c.length_shapes
  rw [hshapes, List.length_append, List.length_map] at length
  omega

/-! ### Options -/

theorem optionAssignment_reads {room : Nat} {o : SchemaOption} (h : o.Printable room) :
    Reads EndsValue (· = o) o.words (optionAssignment room) := by
  unfold optionAssignment SchemaOption.words
  refine (optionName_reads h.name).before (.cons ⟨by simp [Word.shape], by simp [Word.shape]⟩)
    fun name hname => ?_
  refine (expectSign_reads .equals).token fun _ _ => ?_
  exact (optionValue_reads h.value).finish fun v hv => .pure (by rw [hname, hv])

/-- An option is read back from its statement. -/
theorem optionStatement_reads (mode : Mode) {room : Nat} {o : SchemaOption} (h : o.Printable room) :
    Consumes (· = o) o.statement (optionStatement mode room) := by
  unfold optionStatement SchemaOption.statement
  refine (expectKeyword_reads .optionKw).token fun _ _ => ?_
  refine (optionAssignment_reads h).before (.cons ⟨by simp [Word.shape], by simp [Word.shape]⟩)
    fun a ha => ?_
  refine (expectSign_reads .semicolon).token fun _ _ => ?_
  exact (takeTrailing_reads mode).quiet fun _ _ => .pure ha

theorem inlineOptions_reads {room : Nat} {options : List SchemaOption}
    (h : ∀ o ∈ options, o.Printable room) :
    Reads (· ≠ .punct .lbracket) (· = options) (inlineWords options) (inlineOptions room) := by
  unfold inlineOptions
  cases options with
  | nil =>
      refine (accept_other .lbracket).finish fun found hfound => ?_
      subst hfound
      exact .pure rfl
  | cons o options =>
      refine (accept_reads .lbracket).token fun found hfound => ?_
      subst hfound
      have all : Reads (· = .punct .rbracket) (· = o :: options)
          (commaWords SchemaOption.words (o :: options))
          (commaSeparated (optionAssignment room)) := by
        refine commaSeparated_reads EndsValue (fun p hp => optionAssignment_reads (h p hp))
          ⟨by simp, by simp⟩ ?_ ?_
        · rintro k rfl
          exact ⟨by simp, by simp⟩
        · rintro k rfl
          simp
      refine all.before (.cons rfl) fun made hmade => ?_
      exact (expectSign_reads .rbracket).token fun _ _ => .pure hmade

end ProtoRoutes.Grammar
