import Mathlib.Data.List.DropRight
import Mathlib.Data.List.Infix
import ProtoRoutes.Proofs.Source.Spelling

/-!
# ProtoRoutes.Proofs.Source.Spans

Where tokens come from. A text that can be read is a row of spans with gaps around them. Each token
is read from its span, stands at the place where the span starts, and would be read from the span
alone.

`Reads` says what one scan can take. Everything about a single piece is a case analysis of it, and
`tokensFrom_laidOut` puts the pieces of a whole text together.
-/

namespace ProtoRoutes

/-! ### Places -/

namespace Position

/-- The place behind a text, by counting its line ends and the characters behind the last of them.
-/
def behind (cs : List Char) : Position :=
  ⟨1 + cs.count '\n', 1 + (cs.rtakeWhile (· ≠ '\n')).length⟩

theorem behind_concat (cs : List Char) (c : Char) : behind (cs ++ [c]) = (behind cs).next c := by
  by_cases hc : c = '\n'
  · simp [behind, next, hc]
    omega
  · simp [behind, next, hc]
    omega

/-- Going on character by character comes to the place that counting gives. -/
theorem after_behind (before cs : List Char) :
    (behind before).after cs = behind (before ++ cs) := by
  induction cs generalizing before with
  | nil => simp
  | cons c cs ih =>
      rw [after_cons, ← behind_concat, ih]
      simp

theorem after_of_no_newline (p : Position) {cs : List Char} (hline : '\n' ∉ cs) :
    p.after cs = p.right cs.length := by
  induction cs generalizing p with
  | nil => rfl
  | cons c cs ih =>
      rw [List.mem_cons, not_or] at hline
      have hc : c ≠ '\n' := Ne.symm hline.1
      rw [after_cons, ih _ hline.2]
      simp [next, right, hc]
      omega

/-- A character that ends no line stands on the line of the place behind it. -/
theorem behind_line_dropLast (before : List Char) {span : List Char}
    (hlast : span.getLast? ≠ some '\n') :
    (behind (before ++ span)).line = (behind (before ++ span.dropLast)).line := by
  rcases List.eq_nil_or_concat' span with rfl | ⟨front, c, rfl⟩
  · rfl
  · have hc : c ≠ '\n' := by simpa using hlast
    rw [List.dropLast_concat, ← List.append_assoc, behind_concat]
    simp [next, hc]

end Position

namespace Source

/-! ### Numbers -/

theorem fractionPart_isPrefix (cs : List Char) : fractionPart cs <+: cs := by
  fun_cases fractionPart cs with
  | case1 rest => simpa using List.takeWhile_prefix _
  | case2 => simp

theorem exponentPart_isPrefix (cs : List Char) : exponentPart cs <+: cs := by
  fun_cases exponentPart cs <;> simp [List.takeWhile_prefix]

/-- The forms of a fraction part. -/
theorem fractionPart_cases (cs : List Char) :
    fractionPart cs = [] ∨ ∃ ds, fractionPart cs = '.' :: ds ∧ ∀ d ∈ ds, d.isDigit = true := by
  fun_cases fractionPart cs with
  | case1 rest => exact .inr ⟨_, rfl, fun d hd => List.mem_takeWhile_imp hd⟩
  | case2 => exact .inl rfl

/-- The forms of an exponent part. -/
theorem exponentPart_cases (cs : List Char) :
    exponentPart cs = [] ∨
      ∃ e s ds, exponentPart cs = e :: s :: ds ∧ (e = 'e' ∨ e = 'E') ∧
        (∀ d ∈ ds, d.isDigit = true) ∧
        (s.isDigit = true ∨ (s = '+' ∨ s = '-') ∧ ds ≠ []) := by
  fun_cases exponentPart cs with
  | case1 e s rest he hs =>
      refine .inr ⟨e, s, _, rfl, by simpa using he, fun d hd => List.mem_takeWhile_imp hd, .inl hs⟩
  | case2 e s rest he _ hs =>
      rw [Bool.and_eq_true] at hs
      have digits : rest.takeWhile Char.isDigit ≠ [] := by
        cases rest with
        | nil => simp at hs
        | cons d rest => simp_all
      refine .inr ⟨e, s, _, rfl, by simpa using he, fun d hd => List.mem_takeWhile_imp hd,
        .inr ⟨?_, digits⟩⟩
      simpa using hs.1
  | case3 => exact .inl rfl
  | case4 => exact .inl rfl
  | case5 => exact .inl rfl

/-- An exponent part is one on its own. -/
theorem exponentPart_idem (cs : List Char) : exponentPart (exponentPart cs) = exponentPart cs := by
  rcases exponentPart_cases cs with none | ⟨e, s, ds, hpart, he, hds, hs⟩
  · rw [none]
    rfl
  · have digits : ds.takeWhile Char.isDigit = ds := List.takeWhile_eq_self_iff.mpr hds
    rw [hpart, exponentPart, digits]
    rcases hs with hs | ⟨hs, hne⟩
    · simp [he, hs]
    · obtain ⟨d, ds, rfl⟩ := List.exists_cons_of_ne_nil hne
      have hd := hds d List.mem_cons_self
      simp [he, hs, hd]

theorem head_exponentPart {cs : List Char} {c : Char} (hc : c ∈ (exponentPart cs).head?) :
    c = 'e' ∨ c = 'E' := by
  rcases exponentPart_cases cs with none | ⟨e, s, ds, hpart, he, -, -⟩
  · rw [none] at hc
    cases hc
  · rw [hpart] at hc
    cases hc
    exact he

/-- A fraction part is the one of itself in front of an exponent. -/
theorem fractionPart_append {cs ds : List Char} (hds : ∀ d ∈ ds.head?, d = 'e' ∨ d = 'E') :
    fractionPart (fractionPart cs ++ ds) = fractionPart cs := by
  rcases fractionPart_cases cs with none | ⟨fs, hpart, hfs⟩
  · rw [none, List.nil_append]
    cases ds with
    | nil => rfl
    | cons d ds =>
        rcases hds d rfl with rfl | rfl
        · rfl
        · rfl
  · have digits : (fs ++ ds).takeWhile Char.isDigit = fs := by
      refine takeWhile_before hfs ?_
      intro d hd
      rcases hds d hd with rfl | rfl
      · rfl
      · rfl
    rw [hpart, List.cons_append, fractionPart, digits]

/-- The three parts of a decimal number, and what is left behind them. -/
theorem decimalPart_split (cs : List Char) :
    ∃ whole fraction exponent tail, cs = whole ++ (fraction ++ (exponent ++ tail)) ∧
      decimalPart cs = whole ++ (fraction ++ exponent) ∧ whole = cs.takeWhile Char.isDigit ∧
      fraction = fractionPart (fraction ++ (exponent ++ tail)) ∧
      exponent = exponentPart (exponent ++ tail) := by
  have hwhole := List.prefix_iff_eq_append.mp (List.takeWhile_prefix (l := cs) Char.isDigit)
  generalize hds : cs.drop (cs.takeWhile Char.isDigit).length = ds at hwhole
  have hfraction := List.prefix_iff_eq_append.mp (fractionPart_isPrefix ds)
  generalize hes : ds.drop (fractionPart ds).length = es at hfraction
  obtain ⟨tail, hexponent⟩ := exponentPart_isPrefix es
  refine ⟨_, fractionPart ds, exponentPart es, tail, ?_, ?_, rfl, ?_, ?_⟩
  · rw [hexponent, hfraction, hwhole]
  · simp only [decimalPart, ← List.drop_drop, hds, hes, List.append_assoc]
  · rw [hexponent, hfraction]
  · rw [hexponent]

theorem decimalPart_isPrefix (cs : List Char) : decimalPart cs <+: cs := by
  obtain ⟨whole, fraction, exponent, tail, hcs, hpart, -⟩ := decimalPart_split cs
  refine ⟨tail, ?_⟩
  rw [hpart]
  conv_rhs => rw [hcs]
  simp

/-- A decimal number is one on its own. -/
theorem decimalPart_idem (cs : List Char) : decimalPart (decimalPart cs) = decimalPart cs := by
  obtain ⟨whole, fraction, exponent, tail, -, hpart, hwhole, hfraction, hexponent⟩ :=
    decimalPart_split cs
  have head : ∀ d ∈ exponent.head?, d = 'e' ∨ d = 'E' := by
    intro d hd
    rw [hexponent] at hd
    exact head_exponentPart hd
  have fractionAgain : fractionPart (fraction ++ exponent) = fraction := by
    rw [hfraction]
    exact fractionPart_append head
  have exponentAgain : exponentPart exponent = exponent := by
    rw [hexponent]
    exact exponentPart_idem _
  -- Neither a fraction nor an exponent starts with a digit.
  have wholeAgain : (whole ++ (fraction ++ exponent)).takeWhile Char.isDigit = whole := by
    refine takeWhile_before (fun c hc => List.mem_takeWhile_imp (hwhole ▸ hc)) ?_
    intro d hd
    rcases fractionPart_cases (fraction ++ (exponent ++ tail)) with none | ⟨ds, hdot, -⟩
    · rw [hfraction, none, List.nil_append] at hd
      rcases head d hd with rfl | rfl
      · rfl
      · rfl
    · rw [hfraction, hdot] at hd
      cases hd
      rfl
  rw [hpart]
  unfold decimalPart
  simp only [wholeAgain, List.drop_left, fractionAgain, ← List.drop_drop, exponentAgain,
    List.append_assoc]

theorem newline_notMem_of_digits {ds : List Char} (hds : ∀ d ∈ ds, d.isDigit = true) :
    '\n' ∉ ds := by
  intro hmem
  have digit := hds '\n' hmem
  cases digit

theorem newline_notMem_fractionPart (cs : List Char) : '\n' ∉ fractionPart cs := by
  rcases fractionPart_cases cs with none | ⟨ds, hpart, hds⟩
  · simp [none]
  · simp [hpart, newline_notMem_of_digits hds]

theorem newline_notMem_exponentPart (cs : List Char) : '\n' ∉ exponentPart cs := by
  rcases exponentPart_cases cs with none | ⟨e, s, ds, hpart, he, hds, hs⟩
  · simp [none]
  · have first : '\n' ≠ e := by
      rintro rfl
      simp at he
    have second : '\n' ≠ s := by
      rintro rfl
      simp [Char.isDigit] at hs
    simp [hpart, first, second, newline_notMem_of_digits hds]

theorem newline_notMem_decimalPart (cs : List Char) : '\n' ∉ decimalPart cs := by
  obtain ⟨whole, fraction, exponent, tail, -, hpart, hwhole, hfraction, hexponent⟩ :=
    decimalPart_split cs
  rw [hpart, List.mem_append, List.mem_append, hfraction, hexponent, not_or, not_or]
  refine ⟨?_, newline_notMem_fractionPart _, newline_notMem_exponentPart _⟩
  rw [hwhole]
  exact newline_notMem_of_digits fun d hd => List.mem_takeWhile_imp hd

/-- Whether a number is hexadecimal. -/
def StartsHex (cs : List Char) : Prop :=
  ∃ x rest, cs = '0' :: x :: rest ∧ (x = 'x' ∨ x = 'X')

theorem numberPart_of_hex {x : Char} (hx : x = 'x' ∨ x = 'X') (rest : List Char) :
    numberPart ('0' :: x :: rest) = '0' :: x :: rest.takeWhile isHexDigit := by
  simp [numberPart, hx]

theorem numberPart_of_decimal {cs : List Char} (hdecimal : ¬ StartsHex cs) :
    numberPart cs = decimalPart cs := by
  fun_cases numberPart cs with
  | case1 x rest hx => exact absurd ⟨x, rest, rfl, by simpa using hx⟩ hdecimal
  | case2 => rfl
  | case3 => rfl

theorem numberPart_isPrefix (cs : List Char) : numberPart cs <+: cs := by
  by_cases hex : StartsHex cs
  · obtain ⟨x, rest, rfl, hx⟩ := hex
    rw [numberPart_of_hex hx]
    simp [List.takeWhile_prefix]
  · rw [numberPart_of_decimal hex]
    exact decimalPart_isPrefix cs

/-- A number is one on its own. -/
theorem numberPart_idem (cs : List Char) : numberPart (numberPart cs) = numberPart cs := by
  by_cases hex : StartsHex cs
  · obtain ⟨x, rest, rfl, hx⟩ := hex
    rw [numberPart_of_hex hx, numberPart_of_hex hx, List.takeWhile_idem]
  · rw [numberPart_of_decimal hex]
    -- Cut off behind the number, the text does not become a hexadecimal one.
    have still : ¬ StartsHex (decimalPart cs) := by
      rintro ⟨x, rest, hpart, hx⟩
      obtain ⟨tail, hcs⟩ := decimalPart_isPrefix cs
      rw [hpart] at hcs
      exact hex ⟨x, rest ++ tail, hcs.symm, hx⟩
    rw [numberPart_of_decimal still, decimalPart_idem]

theorem newline_notMem_numberPart (cs : List Char) : '\n' ∉ numberPart cs := by
  by_cases hex : StartsHex cs
  · obtain ⟨x, rest, rfl, hx⟩ := hex
    have digits : '\n' ∉ rest.takeWhile isHexDigit := by
      intro hmem
      have digit := List.mem_takeWhile_imp hmem
      cases digit
    have mark : '\n' ≠ x := by
      rintro rfl
      simp at hx
    simp [numberPart_of_hex hx, mark, digits]
  · rw [numberPart_of_decimal hex]
    exact newline_notMem_decimalPart cs

/-- A number starts where one is looked for, and what it takes starts a number too. -/
theorem numberPart_of_startsNumber {c : Char} {rest : List Char}
    (hstart : startsNumber c rest = true) :
    ∃ cs, numberPart (c :: rest) = c :: cs ∧ startsNumber c cs = true := by
  rw [startsNumber, Bool.or_eq_true] at hstart
  rcases hstart with digit | dot
  · by_cases hex : StartsHex (c :: rest)
    · obtain ⟨x, rest, heq, hx⟩ := hex
      rw [heq, numberPart_of_hex hx]
      cases heq
      exact ⟨_, rfl, rfl⟩
    · rw [numberPart_of_decimal hex]
      simp [decimalPart, startsNumber, digit]
  -- A number that starts with a dot is all fraction, and the digit behind the dot belongs to it.
  · rw [Bool.and_eq_true, decide_eq_true_eq] at dot
    obtain ⟨rfl, hhead⟩ := dot
    cases rest with
    | nil => simp at hhead
    | cons d rest =>
        have digit : d.isDigit = true := by simpa using hhead
        have decimal : ¬ StartsHex ('.' :: d :: rest) := by
          rintro ⟨x, tail, heq, -⟩
          cases heq
        have noWhole : ('.' :: d :: rest).takeWhile Char.isDigit = [] := rfl
        rw [numberPart_of_decimal decimal]
        simp [decimalPart, noWhole, fractionPart, startsNumber, digit]

/-! ### Comments and literals -/

/-- A block comment runs to the first sign that ends it, and is one without what follows that sign.
-/
theorem blockCommentBody?_spec {cs body : List Char} (hbody : blockCommentBody? cs = some body) :
    ∃ tail, cs = body ++ '*' :: '/' :: tail ∧ blockCommentBody? (body ++ ['*', '/']) =
      some body := by
  fun_induction blockCommentBody? cs generalizing body with
  | case1 => cases hbody
  | case2 => cases hbody
  | case3 c d rest hend =>
      cases hbody
      rw [Bool.and_eq_true, decide_eq_true_eq, decide_eq_true_eq] at hend
      obtain ⟨rfl, rfl⟩ := hend
      exact ⟨rest, rfl, rfl⟩
  | case4 c d rest hend ih =>
      obtain ⟨body, hrest, rfl⟩ := Option.map_eq_some_iff.mp hbody
      obtain ⟨tail, hcs, hagain⟩ := ih hrest
      refine ⟨tail, by rw [hcs]; rfl, ?_⟩
      -- The comment alone goes on with the same character, so its end is not found earlier.
      obtain ⟨more, hmore⟩ : ∃ more, body ++ ['*', '/'] = d :: more := by
        cases body with
        | nil =>
            cases hcs
            exact ⟨['/'], rfl⟩
        | cons b body =>
            cases hcs
            exact ⟨body ++ ['*', '/'], rfl⟩
      rw [List.cons_append, hmore, blockCommentBody?, if_neg hend, ← hmore, hagain]
      rfl

/-- A string literal runs to its closing quote, and is one without what follows that quote. A line
can only end in it behind a backslash. -/
theorem stringBody?_spec {quote : Char} {cs value : List Char} {n : Nat}
    (hbody : stringBody? quote cs = some (value, n)) :
    ∃ body tail, cs = body ++ quote :: tail ∧ n = body.length + 1 ∧
      stringBody? quote (body ++ [quote]) = some (value, body.length + 1) ∧
      (¬ ['\\', '\n'] <:+: body → '\n' ∉ body) := by
  fun_induction stringBody? quote cs generalizing value n with
  | case1 => cases hbody
  | case2 =>
      cases hbody
      exact ⟨[], [], rfl, rfl, by simp [stringBody?], by simp⟩
  | case3 => cases hbody
  | case4 d rest =>
      cases hbody
      exact ⟨[], d :: rest, rfl, rfl, by simp [stringBody?], by simp⟩
  | case5 => cases hbody
  | case6 d rest hquote hline ih =>
      obtain ⟨⟨value, n⟩, hrest, heq⟩ := Option.map_eq_some_iff.mp hbody
      cases heq
      obtain ⟨body, tail, rfl, rfl, hagain, hplain⟩ := ih hrest
      refine ⟨'\\' :: d :: body, tail, rfl, rfl, ?_, ?_⟩
      · simp [stringBody?, hquote, hagain]
      -- Any character may stand behind the backslash, so it takes the assumption to rule a line end
      -- out.
      · intro hinfix
        have behind : '\n' ∉ body := by
          refine hplain fun h => hinfix ?_
          exact h.trans ⟨['\\', d], [], by simp⟩
        have escaped : '\n' ≠ d := by
          rintro rfl
          exact hinfix ⟨[], body, rfl⟩
        simp [behind, escaped]
  | case7 c d rest hquote hline hescape ih =>
      obtain ⟨⟨value, n⟩, hrest, heq⟩ := Option.map_eq_some_iff.mp hbody
      cases heq
      obtain ⟨body, tail, hcs, rfl, hagain, hplain⟩ := ih hrest
      refine ⟨c :: body, tail, by rw [hcs]; rfl, rfl, ?_, ?_⟩
      · obtain ⟨x, more, hmore⟩ := List.exists_cons_of_ne_nil
          (List.append_ne_nil_of_right_ne_nil body (List.cons_ne_nil quote []))
        rw [List.cons_append, hmore]
        rw [hmore] at hagain
        simp [stringBody?, hquote, hline, hescape, hagain]
      · intro hinfix
        have behind : '\n' ∉ body := by
          refine hplain fun h => hinfix ?_
          exact h.trans ⟨[c], [], by simp⟩
        simp [behind, Ne.symm hline]

/-! ### One piece -/

/-- What a scan can take behind a character, class by class. -/
inductive Reads (c : Char) : List Char → Piece → Prop where
  | gap (hgap : isGap c = true) : Reads c [] .gap
  | lineComment {body : List Char} (hslash : c = '/') (hline : '\n' ∉ body) :
      Reads c ('/' :: body) (.ofChars .comment (lineCommentText body))
  | blockComment {body : List Char} (hslash : c = '/')
      (hbody : blockCommentBody? (body ++ ['*', '/']) = some body) :
      Reads c ('*' :: (body ++ ['*', '/'])) (.ofChars .comment (blockCommentText body))
  | string {body value : List Char} (hquote : c = '"' ∨ c = '\'')
      (hbody : stringBody? c (body ++ [c]) = some (value, body.length + 1))
      (hline : ¬ ['\\', '\n'] <:+: body → '\n' ∉ body) :
      Reads c (body ++ [c]) (.ofChars .string value)
  | number {cs : List Char} (hstart : startsNumber c cs = true)
      (hnumber : numberPart (c :: cs) = c :: cs) :
      Reads c cs (.ofChars .number (c :: cs))
  | word {cs : List Char} (hstart : isWordStart c = true) (hall : ∀ d ∈ cs, isWordChar d = true) :
      Reads c cs (.token (wordKind (String.ofList (c :: cs))) (String.ofList (c :: cs)))
  | sign {p : Punct} (hsign : c = p.char) : Reads c [] (.token (.punct p) c.toString)

/-- A scan takes the first characters of the text, as one of the classes allows. -/
def Takes (c : Char) (rest : List Char) (piece : Piece) (n : Nat) : Prop :=
  ∃ span tail, rest = span ++ tail ∧ n = span.length ∧ Reads c span piece

theorem Takes.of_startsNumber {c : Char} {rest : List Char} (hstart : startsNumber c rest = true) :
    Takes c rest (.ofChars .number (numberPart (c :: rest)))
      ((numberPart (c :: rest)).length - 1) := by
  obtain ⟨cs, hnumber, hagain⟩ := numberPart_of_startsNumber hstart
  obtain ⟨tail, hrest⟩ := numberPart_isPrefix (c :: rest)
  have alone : numberPart (c :: cs) = c :: cs := by
    rw [← hnumber]
    exact numberPart_idem _
  rw [hnumber] at hrest ⊢
  cases hrest
  exact ⟨cs, tail, rfl, rfl, .number hagain alone⟩

theorem takes_of_scan {c : Char} {rest : List Char} {piece : Piece} {n : Nat}
    (hscan : scan c rest = .ok (piece, n)) : Takes c rest piece n := by
  revert hscan
  fun_cases scan c rest with
  | case1 hgap =>
      rintro ⟨⟩
      exact ⟨[], rest, rfl, rfl, .gap hgap⟩
  | case2 _ hslash body =>
      rintro ⟨⟩
      rw [Bool.and_eq_true, decide_eq_true_eq, decide_eq_true_eq, List.head?_eq_some_iff] at hslash
      obtain ⟨rfl, rest, rfl⟩ := hslash
      have line : '\n' ∉ body := by
        intro hmem
        have other := List.mem_takeWhile_imp hmem
        simp at other
      have hrest : rest = body ++ rest.dropWhile (· ≠ '\n') :=
        (List.takeWhile_append_dropWhile ..).symm
      exact ⟨'/' :: body, _, congrArg ('/' :: ·) hrest, rfl, .lineComment rfl line⟩
  | case3 _ _ hslash body hbody =>
      rintro ⟨⟩
      rw [Bool.and_eq_true, decide_eq_true_eq, decide_eq_true_eq, List.head?_eq_some_iff] at hslash
      obtain ⟨rfl, rest, rfl⟩ := hslash
      obtain ⟨tail, hrest, hagain⟩ := blockCommentBody?_spec hbody
      rw [List.tail_cons] at hrest
      subst hrest
      exact ⟨_, tail, by simp, by simp, .blockComment rfl hagain⟩
  | case4 => rintro ⟨⟩
  | case5 _ _ _ hquote value n hbody =>
      rintro ⟨⟩
      obtain ⟨body, tail, rfl, rfl, hagain, hline⟩ := stringBody?_spec hbody
      exact ⟨_, tail, by simp, by simp, .string (by simpa using hquote) hagain hline⟩
  | case6 => rintro ⟨⟩
  | case7 => rintro ⟨⟩
  | case8 _ _ _ _ hstart =>
      intro hscan
      obtain ⟨hpiece, hn⟩ := Prod.mk.inj (Except.ok.inj hscan)
      rw [← hpiece, ← hn]
      exact .of_startsNumber hstart
  | case9 _ _ _ _ hstart =>
      intro hscan
      obtain ⟨hpiece, hn⟩ := Prod.mk.inj (Except.ok.inj hscan)
      rw [← hpiece, ← hn]
      exact .of_startsNumber hstart
  | case10 _ _ _ _ _ hstart word =>
      rintro ⟨⟩
      have letters : ∀ d ∈ word, isWordChar d = true := fun d hd => List.mem_takeWhile_imp hd
      exact ⟨word, _, (List.takeWhile_append_dropWhile ..).symm, rfl, .word hstart letters⟩
  | case11 _ _ _ _ _ _ p hsign =>
      rintro ⟨⟩
      have char : p.char = c := by simpa using List.find?_some hsign
      exact ⟨[], rest, rfl, rfl, .sign char.symm⟩
  | case12 => rintro ⟨⟩

theorem getLast?_ne_of_notMem {c : Char} {cs : List Char} (hmem : c ∉ cs) : cs.getLast? ≠ some c :=
  fun hlast => hmem (List.mem_of_getLast? hlast)

theorem wordKind_ne_string (word : String) : wordKind word ≠ .string := by
  unfold wordKind
  split
  · simp
  · simp

namespace Reads

variable {c : Char} {span : List Char}

/-- A piece is read from the characters that it takes alone. -/
theorem alone {piece : Piece} (hreads : Reads c span piece) :
    scan c span = .ok (piece, span.length) := by
  cases hreads with
  | gap hgap => simp [scan, hgap]
  | @lineComment body hslash hline =>
      subst hslash
      have all : body.takeWhile (fun d => decide (d ≠ '\n')) = body := by
        refine List.takeWhile_eq_self_iff.mpr fun d hd => ?_
        have other : d ≠ '\n' := fun h => hline (h ▸ hd)
        simpa using other
      simp only [scan, List.tail_cons, all]
      rfl
  | @blockComment body hslash hbody =>
      subst hslash
      simp only [scan, List.tail_cons, hbody]
      simp [isGap]
  | @string body value hquote hbody hline =>
      rw [List.length_append, List.length_singleton]
      rcases hquote with rfl | rfl
      · simp only [scan, hbody]
        rfl
      · simp only [scan, hbody]
        rfl
  | number hstart hnumber =>
      have plain : isGap c = false ∧ c ≠ '/' ∧ c ≠ '"' ∧ c ≠ '\'' := by
        refine @plain_of_class (fun d => d.isDigit || d = '.') (by decide) c ?_
        rw [startsNumber, Bool.or_eq_true, Bool.and_eq_true] at hstart
        rw [Bool.or_eq_true]
        exact hstart.imp_right And.left
      obtain ⟨gap, slash, double, single⟩ := plain
      unfold scan
      simp only [gap, slash, double, single, hstart, hnumber]
      simp
  | word hstart hall =>
      have name := @scan_name c span [] hstart hall (by simp)
      rwa [List.append_nil] at name
  | @sign p hsign =>
      subst hsign
      cases p <;> rfl

/-- No token ends with a line. -/
theorem last {kind : TokenKind} {text : String} (hreads : Reads c span (.token kind text)) :
    (c :: span).getLast? ≠ some '\n' := by
  generalize hpiece : Piece.token kind text = piece at hreads
  cases hreads with
  | gap => cases hpiece
  | lineComment hslash hline =>
      subst hslash
      exact getLast?_ne_of_notMem (by simp [hline])
  | @blockComment body =>
      have sign : c :: '*' :: (body ++ ['*', '/']) = (c :: '*' :: body ++ ['*']) ++ ['/'] := by
        simp
      rw [sign, List.getLast?_concat]
      decide
  | @string body _ hquote =>
      rw [← List.cons_append, List.getLast?_concat]
      rcases hquote with rfl | rfl
      · decide
      · decide
  | number hstart hnumber =>
      rw [← hnumber]
      exact getLast?_ne_of_notMem (newline_notMem_numberPart _)
  | word hstart hall =>
      refine getLast?_ne_of_notMem ?_
      rw [List.mem_cons]
      rintro (rfl | hmem)
      · cases hstart
      · have letter := hall _ hmem
        cases letter
  | @sign p hsign =>
      subst hsign
      cases p <;> simp [Punct.char]

/-- The place behind a piece is the place that counting gives, if no line ends behind a backslash.
-/
theorem stop_eq_after {piece : Piece} (hreads : Reads c span piece)
    (hplain : ¬ ['\\', '\n'] <:+: span)
    (pos : Position) : piece.stop pos (c :: span) = pos.after (c :: span) := by
  cases hreads with
  | gap | lineComment | blockComment | number | sign => rfl
  | @string body value hquote hbody hline =>
      have inside : '\n' ∉ body := hline fun h => hplain (h.trans ⟨[], [c], by simp⟩)
      have quote : '\n' ≠ c := by
        rintro rfl
        simp at hquote
      refine (Position.after_of_no_newline pos ?_).symm
      simp [inside, quote]
  | word =>
      have kind := wordKind_ne_string (String.ofList (c :: span))
      unfold Piece.stop
      split
      · next heq =>
          injection heq with hkind
          exact absurd hkind kind
      · rfl

end Reads

/-! ### Whole texts -/

/-- The characters between tokens. -/
def blanks : List Char := [' ', '\t', '\r', '\n', '\x0c', '\x0b', '\ufeff']

/-- A token with the characters that it is read from and the gap behind them. -/
structure Lexeme where
  token : Token
  span : List Char
  gap : List Char

namespace Lexeme

/-- All characters of a lexeme. -/
def chars (l : Lexeme) : List Char := l.span ++ l.gap

/-- A token is placed where its span starts behind a text, and the span alone says the same. -/
structure IsBehind (l : Lexeme) (before : List Char) : Prop where
  pos : l.token.pos = .behind before
  endLine : l.token.endLine = (Position.behind (before ++ l.span.dropLast)).line
  alone : ∃ t stop, tokens (String.ofList l.span) = .ok ⟨[t], stop⟩ ∧ t.shape = l.token.shape

end Lexeme

/-- A text behind another one, taken apart into spans and gaps. -/
structure LaidOut (before cs : List Char) (stream : TokenStream) (gap : List Char)
    (lexemes : List Lexeme) : Prop where
  chars_eq : cs = gap ++ lexemes.flatMap Lexeme.chars
  gap_blank : ∀ c ∈ gap, c ∈ blanks
  gaps_blank : ∀ l ∈ lexemes, ∀ c ∈ l.gap, c ∈ blanks
  tokens_eq : stream.tokens = lexemes.map Lexeme.token
  isBehind : ∀ front l back, lexemes = front ++ l :: back →
    l.IsBehind (before ++ gap ++ front.flatMap Lexeme.chars)
  stop_eq : stream.stop = .behind (before ++ cs)

namespace LaidOut

variable {before cs gap : List Char} {stream : TokenStream} {lexemes : List Lexeme}

/-- A blank in front belongs to the first gap. -/
theorem cons_blank {c : Char} (h : LaidOut (before ++ [c]) cs stream gap lexemes)
    (hc : c ∈ blanks) :
    LaidOut before (c :: cs) stream (c :: gap) lexemes where
  chars_eq := by rw [h.chars_eq]; rfl
  gap_blank := by simpa [hc] using h.gap_blank
  gaps_blank := h.gaps_blank
  tokens_eq := h.tokens_eq
  isBehind front l back hlexemes := by simpa using h.isBehind front l back hlexemes
  stop_eq := by simpa using h.stop_eq

/-- A token in front starts a new lexeme, and what was the first gap stands behind it. -/
theorem cons_token {span : List Char} {t : Token}
    (h : LaidOut (before ++ span) cs stream gap lexemes)
    (ht : (Lexeme.mk t span gap).IsBehind before) :
    LaidOut before (span ++ cs) ⟨t :: stream.tokens, stream.stop⟩ []
      (⟨t, span, gap⟩ :: lexemes) where
  chars_eq := by simp [h.chars_eq, Lexeme.chars]
  gap_blank := by simp
  gaps_blank := by simpa using ⟨h.gap_blank, h.gaps_blank⟩
  tokens_eq := by simp [h.tokens_eq]
  isBehind := by
    intro front l back hlexemes
    -- The new lexeme comes first; the others stand behind its span and gap.
    cases front with
    | nil =>
        cases hlexemes
        simpa using ht
    | cons first front =>
        cases hlexemes
        simpa [Lexeme.chars] using h.isBehind front l back rfl
  stop_eq := by simpa using h.stop_eq

end LaidOut

/-- The characters that a token is read from are a text with this token only. -/
theorem tokens_of_reads {c : Char} {span : List Char} {kind : TokenKind} {text : String}
    (hreads : Reads c span (.token kind text)) :
    ∃ t stop, tokens (String.ofList (c :: span)) = .ok ⟨[t], stop⟩ ∧ t.shape = (kind, text) := by
  unfold tokens
  rw [String.toList_ofList, tokensFrom, hreads.alone]
  simp only [List.drop_length, tokensFrom]
  exact ⟨_, _, rfl, rfl⟩

/-- Reading a text from its place behind another one lays it out there. -/
theorem tokensFrom_laidOut {before cs : List Char} {stream : TokenStream}
    (hread : tokensFrom (.behind before) cs = .ok stream) (hplain : ¬ ['\\', '\n'] <:+: cs) :
    ∃ gap lexemes, LaidOut before cs stream gap lexemes := by
  generalize hpos : Position.behind before = pos at hread
  fun_induction tokensFrom pos cs generalizing before stream with
  | case1 pos =>
      cases hread
      refine ⟨[], [], rfl, by simp, by simp, rfl, by simp, ?_⟩
      simp [hpos]
  | case2 => cases hread
  | case3 pos c rest piece n hscan stop =>
      rename_i ih
      subst hpos
      -- The piece takes a span, and counting on over it gives the place where the tail is read.
      obtain ⟨span, tail, rfl, rfl, hreads⟩ := takes_of_scan hscan
      have plainSpan : ¬ ['\\', '\n'] <:+: span := fun h => hplain (h.trans ⟨[c], tail, by simp⟩)
      have plainTail : ¬ ['\\', '\n'] <:+: tail :=
        fun h => hplain (h.trans ⟨c :: span, [], by simp⟩)
      have place : stop = .behind (before ++ c :: span) := by
        rw [← Position.after_behind, ← hreads.stop_eq_after plainSpan]
        simp [stop]
      rw [List.drop_left] at hread ih
      cases htail : tokensFrom stop tail with
      | error e =>
          rw [htail] at hread
          cases hread
      | ok read =>
          rw [htail] at hread
          cases hread
          obtain ⟨gap, lexemes, hlaid⟩ := ih plainTail place.symm htail
          cases piece with
          | gap =>
              cases hreads with
              | gap hgap =>
                  exact ⟨c :: gap, lexemes,
                    hlaid.cons_blank (by simpa [isGap, blanks, or_assoc] using hgap)⟩
          | token kind text =>
              have endLine :
                  stop.line = (Position.behind (before ++ (c :: span).dropLast)).line := by
                rw [place, Position.behind_line_dropLast before hreads.last]
              refine ⟨[], _, hlaid.cons_token (t := ⟨kind, text, .behind before, stop.line⟩) ?_⟩
              exact ⟨rfl, endLine, tokens_of_reads hreads⟩

/-- Reading loses nothing and places everything. A text in which no line ends behind a backslash is
the row of the spans of its tokens with blanks around them. Each token stands where its span starts,
ends on the line of the span's last character, and is what the span says alone; the text ends where
counting its lines and columns ends. -/
theorem tokens_cover_and_place {text : String} {stream : TokenStream}
    (hread : tokens text = .ok stream) (hplain : ¬ ['\\', '\n'] <:+: text.toList) :
    ∃ gap lexemes, LaidOut [] text.toList stream gap lexemes :=
  tokensFrom_laidOut hread hplain

/-- A comment over two lines, and a word and a literal on the line where it ends. -/
theorem tokens_cover_and_place_comment :
    ∃ stream, tokens "/* a\n*/ b\t\"\\n\"" = .ok stream ∧
      (stream.tokens.map fun t => (t.pos, t.endLine)) = [(⟨1, 1⟩, 2), (⟨2, 4⟩, 2), (⟨2, 6⟩, 2)] ∧
      ∃ gap lexemes, LaidOut [] "/* a\n*/ b\t\"\\n\"".toList stream gap lexemes := by
  have hread : tokens "/* a\n*/ b\t\"\\n\"" = .ok
      ⟨[⟨.comment, "a", ⟨1, 1⟩, 2⟩, ⟨.ident, "b", ⟨2, 4⟩, 2⟩, ⟨.string, "\n", ⟨2, 6⟩, 2⟩],
      ⟨2, 10⟩⟩ := by
    decide +kernel
  exact ⟨_, hread, rfl, tokens_cover_and_place hread (by decide)⟩

end Source

end ProtoRoutes
