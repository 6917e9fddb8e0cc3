import ProtoRoutes.Proofs.Source.Gaps

/-!
# ProtoRoutes.Proofs.Source.Writing

**Reading tokens undoes writing them.** Every token but a comment can be written: names and signs as
they are, numbers in all their forms, and strings in quotes of either kind, whatever is in them.
Written with a blank between two of them, the tokens are read back as they were, with the kinds and
values they had.

Each written token is what `Reads` knows as one piece (`reads_spelling`), so the lexer takes all of
it when it stands alone. A blank behind it changes nothing about that (`scan_before_gap`), so no
token runs into the next one.
-/

namespace ProtoRoutes.Source

/-! ### Forms of numbers -/

/-- A fraction part: nothing, or a point and digits, of which there may be none. -/
inductive IsFraction : List Char → Prop where
  | none : IsFraction []
  | point {ds : List Char} (hds : ∀ d ∈ ds, d.isDigit = true) : IsFraction ('.' :: ds)

/-- An exponent part: nothing, or a mark and at least one digit, with a sign between them or not. -/
inductive IsExponent : List Char → Prop where
  | none : IsExponent []
  | unsigned {e : Char} {ds : List Char} (he : e = 'e' ∨ e = 'E') (hds : ∀ d ∈ ds, d.isDigit = true)
      (hsome : ds ≠ []) : IsExponent (e :: ds)
  | signed {e s : Char} {ds : List Char} (he : e = 'e' ∨ e = 'E') (hs : s = '+' ∨ s = '-')
      (hds : ∀ d ∈ ds, d.isDigit = true) (hsome : ds ≠ []) : IsExponent (e :: s :: ds)

/-- A number: hexadecimal digits behind their mark, or decimal digits with a fraction and an
exponent, where the digits in front of the point may be missing if there are some behind it. -/
inductive IsNumber : List Char → Prop where
  | hexadecimal {x : Char} {ds : List Char} (hx : x = 'x' ∨ x = 'X')
      (hds : ∀ d ∈ ds, isHexDigit d = true) : IsNumber ('0' :: x :: ds)
  | decimal {whole fraction exponent : List Char} (hwhole : ∀ d ∈ whole, d.isDigit = true)
      (hsome : whole ≠ []) (hfraction : IsFraction fraction) (hexponent : IsExponent exponent) :
      IsNumber (whole ++ (fraction ++ exponent))
  | pointed {ds exponent : List Char} (hds : ∀ d ∈ ds, d.isDigit = true) (hsome : ds ≠ [])
      (hexponent : IsExponent exponent) : IsNumber ('.' :: ds ++ exponent)

theorem IsExponent.head {exponent : List Char} (h : IsExponent exponent) :
    ∀ d ∈ exponent.head?, d = 'e' ∨ d = 'E' := by
  cases h with
  | none => simp
  | unsigned he _ _ => simpa using he
  | signed he _ _ _ => simpa using he

theorem IsExponent.exponentPart_eq {exponent : List Char} (h : IsExponent exponent) :
    exponentPart exponent = exponent := by
  cases h with
  | none => rfl
  | unsigned he hds hsome =>
      obtain ⟨d, ds, rfl⟩ := List.exists_cons_of_ne_nil hsome
      have digits : ds.takeWhile Char.isDigit = ds :=
        List.takeWhile_eq_self_iff.mpr fun c hc => hds c (List.mem_cons_of_mem d hc)
      simp [exponentPart, he, hds d List.mem_cons_self, digits]
  | @signed e s ds he hs hds hsome =>
      obtain ⟨d, ds, rfl⟩ := List.exists_cons_of_ne_nil hsome
      have digits : (d :: ds).takeWhile Char.isDigit = d :: ds := List.takeWhile_eq_self_iff.mpr hds
      rw [exponentPart, digits]
      simp [he, hs, hds d List.mem_cons_self]

theorem not_digit_of_mark {d : Char} (h : d = 'e' ∨ d = 'E') : d.isDigit = false := by
  rcases h with rfl | rfl
  · rfl
  · rfl

theorem IsFraction.fractionPart_eq {fraction exponent : List Char} (h : IsFraction fraction)
    (hexponent : IsExponent exponent) : fractionPart (fraction ++ exponent) = fraction := by
  cases h with
  | none =>
      cases hexponent with
      | none => rfl
      | unsigned he _ _ => rcases he with rfl | rfl <;> rfl
      | signed he _ _ _ => rcases he with rfl | rfl <;> rfl
  | point hds =>
      rw [List.cons_append, fractionPart, takeWhile_before hds fun d hd => ?_]
      exact not_digit_of_mark (hexponent.head d hd)

/-- The lexer takes all parts of a decimal number. -/
theorem decimalPart_of_parts {whole fraction exponent : List Char}
    (hwhole : ∀ d ∈ whole, d.isDigit = true)
    (hfraction : IsFraction fraction) (hexponent : IsExponent exponent) :
    decimalPart (whole ++ (fraction ++ exponent)) = whole ++ (fraction ++ exponent) := by
  have front : (whole ++ (fraction ++ exponent)).takeWhile Char.isDigit = whole := by
    refine takeWhile_before hwhole fun d hd => ?_
    cases hfraction with
    | none => exact not_digit_of_mark (hexponent.head d hd)
    | point _ =>
        cases hd
        rfl
  unfold decimalPart
  simp only [front, List.drop_left, hfraction.fractionPart_eq hexponent, ← List.drop_drop,
    hexponent.exponentPart_eq, List.append_assoc]

/-- All of a decimal number is read as one, so it has no mark of a hexadecimal one behind its first
digit. -/
theorem not_startsHex_of_parts {whole fraction exponent : List Char}
    (hwhole : ∀ d ∈ whole, d.isDigit = true) (hfraction : IsFraction fraction)
    (hexponent : IsExponent exponent) : ¬ StartsHex (whole ++ (fraction ++ exponent)) := by
  rintro ⟨x, rest, heq, hx⟩
  have parts := decimalPart_of_parts hwhole hfraction hexponent
  have digit : ('0' :: x :: rest).takeWhile Char.isDigit = ['0'] := by
    rcases hx with rfl | rfl
    · rfl
    · rfl
  have fractionless : fractionPart (x :: rest) = [] := by
    rcases hx with rfl | rfl
    · rfl
    · rfl
  have exponentless : exponentPart (x :: rest) = [] := by
    rcases hx with rfl | rfl
    · cases rest <;> simp [exponentPart]
    · cases rest <;> simp [exponentPart]
  rw [heq, decimalPart] at parts
  simp [digit, fractionless, exponentless] at parts

/-- A number is what the lexer takes for one. -/
theorem IsNumber.reads {w : List Char} (h : IsNumber w) :
    ∃ c cs, w = c :: cs ∧ startsNumber c cs = true ∧ numberPart (c :: cs) = c :: cs := by
  cases h with
  | @hexadecimal x ds hx hds =>
      refine ⟨'0', x :: ds, rfl, rfl, ?_⟩
      rw [numberPart_of_hex hx, List.takeWhile_eq_self_iff.mpr hds]
  | @decimal whole fraction exponent hwhole hsome hfraction hexponent =>
      obtain ⟨d, ds, rfl⟩ := List.exists_cons_of_ne_nil hsome
      have digit := hwhole d List.mem_cons_self
      have decimal := not_startsHex_of_parts hwhole hfraction hexponent
      refine ⟨d, ds ++ (fraction ++ exponent), rfl, by simp [startsNumber, digit], ?_⟩
      exact (numberPart_of_decimal decimal).trans (decimalPart_of_parts hwhole hfraction hexponent)
  | @pointed ds exponent hds hsome hexponent =>
      obtain ⟨d, ds, rfl⟩ := List.exists_cons_of_ne_nil hsome
      have digit := hds d List.mem_cons_self
      have empty : ∀ c ∈ ([] : List Char), c.isDigit = true := by simp
      have decimal := not_startsHex_of_parts empty (.point hds) hexponent
      refine ⟨'.', d :: ds ++ exponent, rfl, by simp [startsNumber, digit], ?_⟩
      exact (numberPart_of_decimal decimal).trans
        (decimalPart_of_parts empty (.point hds) hexponent)

/-! ### Strings -/

namespace Quote

/-- A written string alone is one piece. -/
theorem scan_string (q : Quote) (value : String) :
    scan q.char (value.toList.flatMap q.escape ++ [q.char]) =
      .ok (.token .string value, (value.toList.flatMap q.escape ++ [q.char]).length) := by
  have body := q.stringBody?_escape value.toList []
  unfold scan
  rw [body]
  cases q with
  | double => simp [char, isGap, Piece.ofChars]
  | single => simp [char, isGap, Piece.ofChars]

end Quote

/-! ### Tokens to be written -/

/-- A token to be written, as one of the kinds that the lexer knows. -/
inductive Written where
  | keyword (k : Keyword)
  | ident (text : String) (hname : isIdent text = true) (hfree : ∀ k : Keyword, k.text ≠ text)
  | number (lexeme : List Char) (hform : IsNumber lexeme)
  | sign (p : Punct)
  | string (quote : Quote) (value : String)

namespace Written

/-- A token in its source form. -/
def spelling : Written → List Char
  | keyword k => k.text.toList
  | ident text _ _ => text.toList
  | number lexeme _ => lexeme
  | sign p => [p.char]
  | string quote value => quote.char :: (value.toList.flatMap quote.escape ++ [quote.char])

/-- The kind and the value of a token. -/
def shape : Written → TokenKind × String
  | keyword k => (.keyword k, k.text)
  | ident text _ _ => (.ident, text)
  | number lexeme _ => (.number, String.ofList lexeme)
  | sign p => (.punct p, p.char.toString)
  | string _ value => (.string, value)

end Written

/-- Tokens in their source forms, with a blank between two of them. -/
def writtenText (ws : List Written) : String :=
  String.ofList ([' '].intercalate (ws.map Written.spelling))

/-! ### Reading them back -/

theorem wordKind_of_free {text : String} (hfree : ∀ k : Keyword, k.text ≠ text) :
    wordKind text = .ident := by
  have none : Keyword.ofText? text = none := by simp [Keyword.ofText?, hfree]
  rw [wordKind, none]

/-- A name alone is one piece, of the kind that its text has. -/
theorem scan_ident {text : String} (hname : isIdent text = true) :
    ∃ c cs, text.toList = c :: cs ∧ isWordStart c = true ∧
      scan c cs = .ok (.token (wordKind text) text, cs.length) := by
  unfold isIdent at hname
  cases hchars : text.toList with
  | nil =>
      rw [hchars] at hname
      cases hname
  | cons c cs =>
      rw [hchars, Bool.and_eq_true] at hname
      have htext : text = String.ofList (c :: cs) := by rw [← hchars, String.ofList_toList]
      refine ⟨c, cs, rfl, hname.1, ?_⟩
      rw [htext]
      exact (Reads.word hname.1 (List.all_eq_true.mp hname.2)).alone

/-- A written token alone is one piece, and it starts no comment. -/
theorem scan_written (w : Written) :
    ∃ c cs, w.spelling = c :: cs ∧ c ≠ '/' ∧
      scan c cs = .ok (.token w.shape.1 w.shape.2, cs.length) := by
  cases w with
  | keyword k =>
      obtain ⟨c, cs, hchars, hstart, hscan⟩ := scan_ident (isIdent_keyword k)
      rw [wordKind_keyword] at hscan
      exact ⟨c, cs, hchars, (plain_of_class (by decide) hstart).2.1, hscan⟩
  | ident text hname hfree =>
      obtain ⟨c, cs, hchars, hstart, hscan⟩ := scan_ident hname
      rw [wordKind_of_free hfree] at hscan
      exact ⟨c, cs, hchars, (plain_of_class (by decide) hstart).2.1, hscan⟩
  | number lexeme hform =>
      obtain ⟨c, cs, rfl, hstart, hnumber⟩ := hform.reads
      refine ⟨c, cs, rfl, ?_, (Reads.number hstart hnumber).alone⟩
      rintro rfl
      cases hstart
  | sign p =>
      refine ⟨p.char, [], rfl, ?_, (Reads.sign rfl).alone⟩
      cases p <;> decide
  | string quote value =>
      refine ⟨quote.char, _, rfl, by cases quote <;> decide, ?_⟩
      exact quote.scan_string value

/-- The lexer reads a text of written tokens from any place. -/
theorem tokensFrom_written (ws : List Written) (pos : Position) :
    ∃ s, tokensFrom pos ([' '].intercalate (ws.map Written.spelling)) = .ok s ∧
      s.tokens.map Token.shape = ws.map Written.shape := by
  induction ws generalizing pos with
  | nil => exact ⟨⟨[], pos⟩, by simp [List.intercalate, tokensFrom], rfl⟩
  | cons w ws ih =>
      obtain ⟨c, cs, hspelling, hslash, hscan⟩ := scan_written w
      cases ws with
      | nil =>
          simp only [List.map_cons, List.map_nil, List.intercalate_singleton, hspelling]
          rw [tokensFrom, hscan]
          simp [tokensFrom, Piece.token?, Token.shape, Except.map]
      | cons v ws =>
          have text : [' '].intercalate ((w :: v :: ws).map Written.spelling) =
              c :: (cs ++ ' ' :: [' '].intercalate ((v :: ws).map Written.spelling)) := by
            simp [List.intercalate, hspelling]
          -- The blank ends this token, and then the other ones are read from where it stands.
          rw [text, tokensFrom, scan_before_gap rfl (.inr hslash) hscan]
          simp only [List.drop_left, tokensFrom_blank]
          generalize (Piece.token w.shape.1 w.shape.2).stop pos _ = stop
          obtain ⟨s, hs, hshapes⟩ := ih (stop.next ' ')
          rw [hs]
          refine ⟨_, rfl, ?_⟩
          rw [List.map_append, hshapes]
          rfl

/-- **Reading undoes writing**: tokens of all kinds, written one behind the other with a blank
between them, are read back with their kinds and values, and the end of the text follows. -/
theorem tokens_writtenText (ws : List Written) :
    ∃ stream, tokens (writtenText ws) = .ok stream ∧
      (stream.tokens ++ [Token.eof stream.stop]).map Token.shape = ws.map Written.shape ++
        [(.eof, "")] := by
  obtain ⟨stream, hread, hshapes⟩ := tokensFrom_written ws .start
  refine ⟨stream, ?_, ?_⟩
  · rw [tokens, writtenText, String.toList_ofList, hread]
  · rw [List.map_append, hshapes]
    rfl

end ProtoRoutes.Source
