import ProtoRoutes.Proofs.Source.Spans

/-!
# ProtoRoutes.Proofs.Source.Gaps

**A blank keeps apart what stands around it.** What is read in front of a blank is what would be
read if the text ended there (`scan_before_gap`); a line comment needs the end of a line for that.
So the tokens of a text with a further line behind it are its own tokens, and then those of the
line, wherever they stand now (`tokensFrom_append`, `tokensFrom_shapes`).
-/

namespace ProtoRoutes.Source

/-! ### Blanks -/

/-- A class of characters without blanks. -/
theorem not_class_of_isGap {test : Char → Bool} (hclass : blanks.any test = false) {b : Char}
    (hb : isGap b = true) : test b = false := by
  have hmem : b ∈ blanks := by simpa [isGap, blanks, or_assoc] using hb
  exact Bool.eq_false_iff.mpr (List.any_eq_false.mp hclass b hmem)

theorem takeWhile_before_stop {test : Char → Bool} {b : Char} (hb : test b = false)
    (cs ds : List Char) :
    (cs ++ b :: ds).takeWhile test = cs.takeWhile test := by
  induction cs with
  | nil => simp [hb]
  | cons c cs ih => simp [List.takeWhile_cons, ih]

theorem digits_not_blank : blanks.any Char.isDigit = false := by decide

section Blank

variable {b : Char} (hb : isGap b = true)
include hb

theorem ne_of_isGap {d : Char} (hd : isGap d = false) : b ≠ d := by
  rintro rfl
  rw [hb] at hd
  cases hd

/-- In front of a blank, a text starts with the characters that it starts with alone. -/
theorem head?_before_gap {d : Char} (hd : isGap d = false) (cs ds : List Char) :
    (cs ++ b :: ds).head? = some d ↔ cs.head? = some d := by
  cases cs with
  | nil => simp [ne_of_isGap hb hd]
  | cons c cs => rfl

theorem any_head?_before_gap {test : Char → Bool} (hclass : blanks.any test = false)
    (cs ds : List Char) :
    (cs ++ b :: ds).head?.any test = cs.head?.any test := by
  cases cs with
  | nil => simp [not_class_of_isGap hclass hb]
  | cons c cs => rfl

theorem takeWhile_before_gap {test : Char → Bool} (hclass : blanks.any test = false)
    (cs ds : List Char) : (cs ++ b :: ds).takeWhile test = cs.takeWhile test :=
  takeWhile_before_stop (not_class_of_isGap hclass hb) cs ds

/-! ### Numbers -/

theorem fractionPart_before_gap (cs ds : List Char) :
    fractionPart (cs ++ b :: ds) = fractionPart cs := by
  cases cs with
  | nil =>
      unfold fractionPart
      split
      · next heq => exact absurd (List.cons.inj heq).1 (ne_of_isGap hb rfl)
      · rfl
  | cons c cs =>
      by_cases hc : c = '.'
      · subst hc
        simp only [List.cons_append, fractionPart, takeWhile_before_gap hb digits_not_blank]
      · simp [fractionPart, hc]

theorem exponentPart_before_gap (cs ds : List Char) :
    exponentPart (cs ++ b :: ds) = exponentPart cs := by
  have digit : b.isDigit = false := not_class_of_isGap digits_not_blank hb
  rcases cs with _ | ⟨e, _ | ⟨s, cs⟩⟩
  · have mark : b ≠ 'e' ∧ b ≠ 'E' := ⟨ne_of_isGap hb rfl, ne_of_isGap hb rfl⟩
    cases ds with
    | nil => rfl
    | cons d ds => simp [exponentPart, mark]
  · have sign : b ≠ '+' ∧ b ≠ '-' := ⟨ne_of_isGap hb rfl, ne_of_isGap hb rfl⟩
    simp [exponentPart, digit, sign]
  · simp only [List.cons_append, exponentPart, takeWhile_before_gap hb digits_not_blank,
      any_head?_before_gap hb digits_not_blank]

theorem decimalPart_before_gap (cs ds : List Char) :
    decimalPart (cs ++ b :: ds) = decimalPart cs := by
  obtain ⟨whole, fraction, exponent, tail, hcs, hpart, hwhole, hfraction, hexponent⟩ :=
    decimalPart_split cs
  -- The parts are read one behind the other, and none of them goes beyond the blank.
  have wholeAgain : (cs ++ b :: ds).takeWhile Char.isDigit = whole := by
    rw [takeWhile_before_gap hb digits_not_blank, hwhole]
  have text : cs ++ b :: ds = whole ++ (fraction ++ (exponent ++ (tail ++ b :: ds))) := by
    rw [hcs]
    simp
  have fractionAgain : fractionPart (fraction ++ (exponent ++ (tail ++ b :: ds))) = fraction := by
    have same := fractionPart_before_gap hb (fraction ++ (exponent ++ tail)) ds
    rw [← hfraction] at same
    simpa using same
  have exponentAgain : exponentPart (exponent ++ (tail ++ b :: ds)) = exponent := by
    have same := exponentPart_before_gap hb (exponent ++ tail) ds
    rw [← hexponent] at same
    simpa using same
  unfold decimalPart at hpart ⊢
  simp only [wholeAgain]
  rw [text, hpart]
  simp only [List.drop_left, fractionAgain, ← List.drop_drop, exponentAgain, List.append_assoc]

theorem numberPart_before_gap {cs : List Char} (hcs : cs ≠ []) (ds : List Char) :
    numberPart (cs ++ b :: ds) = numberPart cs := by
  by_cases hex : StartsHex cs
  · obtain ⟨x, rest, rfl, hx⟩ := hex
    rw [List.cons_append, List.cons_append, numberPart_of_hex hx, numberPart_of_hex hx,
      takeWhile_before_gap hb (by decide)]
  · have still : ¬ StartsHex (cs ++ b :: ds) := by
      rintro ⟨x, rest, heq, hx⟩
      rcases cs with _ | ⟨c, _ | ⟨d, cs⟩⟩
      · exact hcs rfl
      · cases heq
        rcases hx with rfl | rfl
        · cases hb
        · cases hb
      · cases heq
        exact hex ⟨x, cs, rfl, hx⟩
    rw [numberPart_of_decimal hex, numberPart_of_decimal still, decimalPart_before_gap hb]

end Blank

/-! ### Comments and literals -/

theorem blockCommentBody?_append {cs body : List Char} (h : blockCommentBody? cs = some body)
    (ds : List Char) : blockCommentBody? (cs ++ ds) = some body := by
  fun_induction blockCommentBody? cs generalizing body with
  | case1 => cases h
  | case2 => cases h
  | case3 c d rest hend =>
      cases h
      simp only [List.cons_append, blockCommentBody?, hend, if_true]
  | case4 c d rest hend ih =>
      obtain ⟨body, hrest, rfl⟩ := Option.map_eq_some_iff.mp h
      have again := ih hrest
      rw [List.cons_append] at again
      simp only [List.cons_append, blockCommentBody?, again]
      simp [hend]

theorem stringBody?_append {quote : Char} {cs value : List Char} {n : Nat}
    (h : stringBody? quote cs = some (value, n)) (ds : List Char) :
    stringBody? quote (cs ++ ds) = some (value, n) := by
  fun_induction stringBody? quote cs generalizing value n with
  | case1 => cases h
  | case2 =>
      cases h
      cases ds with
      | nil => simp [stringBody?]
      | cons d ds => simp [stringBody?]
  | case3 => cases h
  | case4 d rest =>
      cases h
      simp [stringBody?]
  | case5 => cases h
  | case6 d rest hquote hline ih =>
      obtain ⟨⟨value, n⟩, hrest, heq⟩ := Option.map_eq_some_iff.mp h
      cases heq
      simp [stringBody?, hquote, ih hrest]
  | case7 c d rest hquote hline hescape ih =>
      obtain ⟨⟨value, n⟩, hrest, heq⟩ := Option.map_eq_some_iff.mp h
      cases heq
      have again := ih hrest
      rw [List.cons_append] at again
      simp [stringBody?, hquote, hline, hescape, again]

/-! ### One piece -/

/-- What is read in front of a blank is what is read at the end of a text. Only a line comment would
go on, if the blank does not end the line. -/
theorem scan_before_gap {c b : Char} (hb : isGap b = true) (hline : b = '\n' ∨ c ≠ '/')
    {cs : List Char}
    {piece : Piece} {n : Nat} (hscan : scan c cs = .ok (piece, n)) (ds : List Char) :
    scan c (cs ++ b :: ds) = .ok (piece, n) := by
  have slash := head?_before_gap hb (d := '/') rfl cs ds
  have star := head?_before_gap hb (d := '*') rfl cs ds
  have number : startsNumber c (cs ++ b :: ds) = startsNumber c cs := by
    simp only [startsNumber, any_head?_before_gap hb digits_not_blank]
  have part := numberPart_before_gap hb (List.cons_ne_nil c cs) ds
  rw [List.cons_append] at part
  have behind : (cs ++ b :: ds).drop ((numberPart (c :: cs)).length - 1) =
      cs.drop ((numberPart (c :: cs)).length - 1) ++ b :: ds := by
    have short := (numberPart_isPrefix (c :: cs)).length_le
    rw [List.length_cons] at short
    exact List.drop_append_of_le_length (by omega)
  -- By the branches of the lexer: their tests come to the same in front of a blank and at the end
  -- of a text.
  revert hscan
  fun_cases scan c cs with
  | case1 hgap =>
      rintro ⟨⟩
      simp only [scan, hgap, if_true]
  | case2 hgap hslash body =>
      rintro ⟨⟩
      unfold scan
      simp only [slash, hgap, hslash, if_true, Bool.false_eq_true, if_false]
      rw [Bool.and_eq_true, decide_eq_true_eq, decide_eq_true_eq, List.head?_eq_some_iff] at hslash
      obtain ⟨rfl, cs, rfl⟩ := hslash
      have newline : b = '\n' := hline.resolve_right (fun h => h rfl)
      have line : (cs ++ b :: ds).takeWhile (fun d => decide (d ≠ '\n')) = body :=
        takeWhile_before_stop (by simp [newline]) cs ds
      simp only [List.cons_append, List.tail_cons, line]
  | case3 hgap hslash hstar body hbody =>
      rintro ⟨⟩
      unfold scan
      simp only [slash, star, hgap, hslash, hstar, if_true, Bool.false_eq_true, if_false]
      rw [Bool.and_eq_true, decide_eq_true_eq, decide_eq_true_eq, List.head?_eq_some_iff] at hstar
      obtain ⟨-, cs, rfl⟩ := hstar
      rw [List.tail_cons] at hbody
      simp only [List.cons_append, List.tail_cons, blockCommentBody?_append hbody]
  | case4 => rintro ⟨⟩
  | case5 hgap hslash hstar hquote value n hbody =>
      rintro ⟨⟩
      unfold scan
      simp only [slash, star, hgap, hslash, hstar, hquote, if_true, Bool.false_eq_true, if_false,
        stringBody?_append hbody]
  | case6 => rintro ⟨⟩
  | case7 => rintro ⟨⟩
  | case8 hgap hslash hstar hquote hstart digits n d tail hdrop hplain =>
      intro hscan
      rw [hdrop] at behind
      unfold scan
      simp only [slash, star, number, part, behind, hgap, hslash, hstar, hquote, hstart,
        hplain, if_true,
        Bool.false_eq_true, if_false, List.cons_append]
      exact hscan
  | case9 hgap hslash hstar hquote hstart digits n hdrop =>
      -- The number goes up to the blank, and a blank behind digits makes no malformed number of
      -- them.
      intro hscan
      rw [hdrop] at behind
      have plain : (Text.isAlphanumeric b || decide (b = '_')) = false :=
        @not_class_of_isGap (fun d => Text.isAlphanumeric d || d = '_') (by decide +kernel) b hb
      unfold scan
      simp only [slash, star, number, part, behind, hgap, hslash, hstar, hquote, hstart,
        plain, if_true,
        Bool.false_eq_true, if_false, List.nil_append]
      exact hscan
  | case10 hgap hslash hstar hquote hstart hword word text =>
      rintro ⟨⟩
      unfold scan
      simp only [slash, star, number, hgap, hslash, hstar, hquote, hstart, hword, if_true,
        Bool.false_eq_true, if_false]
      rw [takeWhile_before_gap hb (by decide)]
  | case11 hgap hslash hstar hquote hstart hword p hsign =>
      rintro ⟨⟩
      unfold scan
      simp only [slash, star, number, hgap, hslash, hstar, hquote, hstart, hword, hsign,
        Bool.false_eq_true, if_false]
  | case12 => rintro ⟨⟩

/-! ### Whole texts -/

theorem tokensFrom_gap {b : Char} (hb : isGap b = true) (pos : Position) (rest : List Char) :
    tokensFrom pos (b :: rest) = tokensFrom (pos.next b) rest := by
  have gap : scan b rest = .ok (.gap, 0) := by simp only [scan, hb, if_true]
  rw [tokensFrom, gap]
  show (tokensFrom (pos.next b) rest).map _ = _
  cases tokensFrom (pos.next b) rest <;> rfl

/-- Behind a line come the tokens of the next lines. -/
theorem tokensFrom_append {pos : Position} {cs : List Char} {s : TokenStream}
    (hread : tokensFrom pos cs = .ok s) (ds : List Char) :
    tokensFrom pos (cs ++ '\n' :: ds) =
      (tokensFrom (s.stop.next '\n') ds).map fun t => ⟨s.tokens ++ t.tokens, t.stop⟩ := by
  fun_induction tokensFrom pos cs generalizing s with
  | case1 pos =>
      cases hread
      rw [List.nil_append, tokensFrom_gap rfl]
      cases tokensFrom (pos.next '\n') ds <;> rfl
  | case2 => cases hread
  | case3 pos c rest piece n hscan stop =>
      rename_i ih
      obtain ⟨span, tail, rfl, rfl, -⟩ := takes_of_scan hscan
      have again := scan_before_gap rfl (.inl rfl) hscan ds
      have span_eq : (span ++ tail ++ '\n' :: ds).take span.length =
          (span ++ tail).take span.length := by
        simp
      rw [List.cons_append, tokensFrom, again]
      simp only [span_eq]
      rw [List.append_assoc, List.drop_left]
      rw [List.drop_left] at hread ih
      cases htail : tokensFrom stop tail with
      | error e =>
          rw [htail] at hread
          cases hread
      | ok t =>
          rw [htail] at hread
          cases hread
          rw [ih htail]
          cases tokensFrom (t.stop.next '\n') ds with
          | error e => rfl
          | ok u => simp [Except.map, stop]

/-- What the tokens of a text say does not depend on where it stands. -/
theorem tokensFrom_shapes {pos : Position} {cs : List Char} {s : TokenStream}
    (hread : tokensFrom pos cs = .ok s) (pos' : Position) :
    ∃ t, tokensFrom pos' cs = .ok t ∧ t.tokens.map Token.shape = s.tokens.map Token.shape := by
  fun_induction tokensFrom pos cs generalizing pos' s with
  | case1 pos =>
      cases hread
      exact ⟨⟨[], pos'⟩, by rw [tokensFrom], rfl⟩
  | case2 => cases hread
  | case3 pos c rest piece n hscan stop =>
      rename_i ih
      cases htail : tokensFrom stop (rest.drop n) with
      | error e =>
          rw [htail] at hread
          cases hread
      | ok t =>
          rw [htail] at hread
          cases hread
          obtain ⟨u, hu, hshapes⟩ := ih htail (piece.stop pos' (c :: rest.take n))
          rw [tokensFrom, hscan]
          simp only [hu]
          refine ⟨_, rfl, ?_⟩
          cases piece with
          | gap => exact hshapes
          | token kind text => simp [Piece.token?, Token.shape, ← hshapes]

end ProtoRoutes.Source
