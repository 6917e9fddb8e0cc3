import ProtoRoutes.Proofs.Number.Numerals
import ProtoRoutes.Source.Lexer

/-!
# ProtoRoutes.Proofs.Source.Spelling

The way back from tokens to a text. A `Word` is what a token says without its place, `spell` writes
words with a blank behind each of them, and `tokens_spell` says that the lexer reads them back one
by one. What is printed as words can then be taken for a list of tokens, and no later proof looks at
characters again.

A blank behind every word keeps the lexer's lookahead out of the way: no number, name or sign runs
into what follows it.
-/

namespace ProtoRoutes

/-- What a token says, without its place. -/
def Token.shape (t : Token) : TokenKind × String := (t.kind, t.text)

namespace Source

/-! ### Words -/

/-- A word of the language, to be written. -/
inductive Word where
  | name (text : String)
  | sign (p : Punct)
  | number (n : Nat)
  | quoted (text : String)
  deriving DecidableEq, Repr

/-- The two kinds of quotes. -/
inductive Quote where
  | double
  | single
  deriving DecidableEq, Repr

namespace Quote

/-- A quote as it is written. -/
def char : Quote → Char
  | double => '"'
  | single => '\''

/-- A character of a string in these quotes. The other quote stands for itself. -/
def escape (q : Quote) (c : Char) : List Char :=
  if c = q.char then ['\\', c]
  else match c with
    | '\\' => ['\\', '\\']
    | '\n' => ['\\', 'n']
    | '\r' => ['\\', 'r']
    | '\t' => ['\\', 't']
    | c => [c]

end Quote

/-- The digits of a number. -/
def decimal (n : Nat) : List Char := Nat.toDigits 10 n

/-- An identifier: letters, digits and underscores, with no digit in front. Keywords are
identifiers. -/
def isIdent (text : String) : Bool :=
  match text.toList with
  | [] => false
  | c :: cs => isWordStart c && cs.all isWordChar

namespace Word

/-- A word as it is written. -/
def spelling : Word → List Char
  | name text => text.toList
  | sign p => [p.char]
  | number n => decimal n
  | quoted text => '"' :: text.toList.flatMap Quote.double.escape ++ ['"']

/-- What the token of a word says. -/
def shape : Word → TokenKind × String
  | name text => (wordKind text, text)
  | sign p => (.punct p, p.char.toString)
  | number n => (.number, String.ofList (decimal n))
  | quoted text => (.string, text)

/-- Whether a word can be written: names are identifiers. -/
def Sound : Word → Prop
  | name text => isIdent text = true
  | _ => True

end Word

/-- Words as characters, with a blank behind each. -/
def chars (ws : List Word) : List Char :=
  ws.flatMap fun w => w.spelling ++ [' ']

/-- Words as a text. -/
def spell (ws : List Word) : String :=
  String.ofList (chars ws)

/-! ### Characters -/

theorem isDigit_eq_false_of_isWordStart {c : Char} (h : isWordStart c = true) :
    c.isDigit = false := by
  have least : 'A'.val ≤ c.val := by
    rcases Bool.or_eq_true_iff.mp h with alpha | line
    · rcases Bool.or_eq_true_iff.mp alpha with upper | lower
      · exact (of_decide_eq_true upper).1
      · have least := of_decide_eq_true (Bool.and_eq_true_iff.mp lower).1
        exact UInt32.le_trans (by decide) least
    · rw [of_decide_eq_true line]
      decide
  cases digit : c.isDigit with
  | false => rfl
  | true =>
      have greatest := of_decide_eq_true (Bool.and_eq_true_iff.mp digit).2
      exact absurd (UInt32.le_trans least greatest) (by decide)

theorem isDigit_of_mem_decimal {n : Nat} {c : Char} (h : c ∈ decimal n) : c.isDigit = true :=
  Nat.isDigit_of_mem_toDigits (by decide) (by decide) h

theorem decimal_ne_nil (n : Nat) : decimal n ≠ [] := by
  unfold decimal
  rw [Nat.toDigits_eq_if (by decide)]
  split
  · simp
  · simp

/-! ### One word -/

/-- A character of a class without blanks, slash and quotes starts none of their pieces. -/
theorem plain_of_class {test : Char → Bool}
    (hclass : [' ', '\t', '\r', '\n', '\x0c', '\x0b', '\ufeff', '/', '"', '\''].any test = false)
    {c : Char} (hc : test c = true) :
    isGap c = false ∧ c ≠ '/' ∧ c ≠ '"' ∧ c ≠ '\'' := by
  have other : ∀ d ∈ [' ', '\t', '\r', '\n', '\x0c', '\x0b', '\ufeff', '/', '"', '\''], c ≠ d := by
    rintro d hd rfl
    have none := List.any_eq_false.mp hclass c hd
    exact none hc
  simp only [List.mem_cons, List.not_mem_nil, or_false, forall_eq_or_imp, forall_eq] at other
  simp [isGap, other]

theorem takeWhile_before {test : Char → Bool} {cs ds : List Char} (hall : ∀ c ∈ cs, test c = true)
    (hstop : ∀ d ∈ ds.head?, test d = false) : (cs ++ ds).takeWhile test = cs := by
  rw [List.takeWhile_append_of_pos hall]
  cases ds with
  | nil => simp
  | cons d ds => simp [hstop d rfl]

theorem takeWhile_before_blank {test : Char → Bool} {cs : List Char}
    (hall : ∀ c ∈ cs, test c = true) (hblank : test ' ' = false) (rest : List Char) :
    (cs ++ ' ' :: rest).takeWhile test = cs :=
  takeWhile_before hall (by simpa using hblank)

/-- A word ends where no character of a word follows. -/
theorem scan_name {c : Char} {cs rest : List Char} (hstart : isWordStart c = true)
    (hall : ∀ d ∈ cs, isWordChar d = true) (hstop : ∀ d ∈ rest.head?, isWordChar d = false) :
    scan c (cs ++ rest) =
      .ok (.token (wordKind (String.ofList (c :: cs))) (String.ofList (c :: cs)), cs.length) := by
  obtain ⟨gap, slash, double, single⟩ := plain_of_class (by decide) hstart
  have dot : c ≠ '.' := by
    rintro rfl
    cases hstart
  have word : (cs ++ rest).takeWhile isWordChar = cs := takeWhile_before hall hstop
  unfold scan
  simp only [gap, slash, double, single, startsNumber, isDigit_eq_false_of_isWordStart hstart,
    dot, hstart,
    word]
  simp

theorem scan_sign (p : Punct) (rest : List Char) :
    scan p.char (' ' :: rest) = .ok (.token (.punct p) p.char.toString, 0) := by
  cases p <;> rfl

theorem decimalPart_before_blank {cs : List Char} (hall : ∀ c ∈ cs, c.isDigit = true)
    (rest : List Char) : decimalPart (cs ++ ' ' :: rest) = cs := by
  unfold decimalPart
  rw [takeWhile_before_blank hall (by decide)]
  simp only [List.drop_left, fractionPart]
  cases rest with
  | nil => simp [exponentPart]
  | cons d rest => simp [exponentPart]

theorem numberPart_before_blank {cs : List Char} (hall : ∀ c ∈ cs, c.isDigit = true)
    (rest : List Char) : numberPart (cs ++ ' ' :: rest) = cs := by
  unfold numberPart
  split
  · next x tail heq =>
      -- What stands behind a zero is a digit or the blank, so the number is no hexadecimal one.
      have plain : x ≠ 'x' ∧ x ≠ 'X' := by
        rcases cs with _ | ⟨c, _ | ⟨d, cs⟩⟩
        · cases heq
        · cases heq
          decide
        · cases heq
          have digit := hall x (by simp)
          constructor
          · rintro rfl
            cases digit
          · rintro rfl
            cases digit
      simp only [plain.1, plain.2, decide_false, Bool.or_self, Bool.false_eq_true, if_false]
      rw [← heq]
      exact decimalPart_before_blank hall rest
  · exact decimalPart_before_blank hall rest

/-- Digits in front of a blank are one number. -/
theorem scan_number {c : Char} {cs : List Char} (hall : ∀ d ∈ c :: cs, d.isDigit = true)
    (rest : List Char) :
    scan c (cs ++ ' ' :: rest) = .ok (.token .number (String.ofList (c :: cs)), cs.length) := by
  have digit := hall c List.mem_cons_self
  obtain ⟨gap, slash, double, single⟩ := plain_of_class (by decide) digit
  have number : numberPart (c :: (cs ++ ' ' :: rest)) = c :: cs := numberPart_before_blank hall rest
  have blank : Text.isAlphanumeric ' ' = false := by decide
  unfold scan
  simp only [gap, slash, double, single, startsNumber, digit, number]
  simp [blank, Piece.ofChars]

/-- A character is written with a backslash that is taken back, or as it is if that changes nothing.
-/
theorem Quote.escape_cases (q : Quote) (c : Char) :
    (∃ x, q.escape c = ['\\', x] ∧ unescape x = [c]) ∨
      (q.escape c = [c] ∧ c ≠ q.char ∧ c ≠ '\n' ∧ c ≠ '\\') := by
  unfold escape
  split
  · next hquote =>
      refine .inl ⟨c, rfl, ?_⟩
      cases q <;> rw [hquote] <;> rfl
  · next hquote =>
      split
      · exact .inl ⟨_, rfl, rfl⟩
      · exact .inl ⟨_, rfl, rfl⟩
      · exact .inl ⟨_, rfl, rfl⟩
      · exact .inl ⟨_, rfl, rfl⟩
      · next backslash newline _ _ => exact .inr ⟨rfl, hquote, newline, backslash⟩

theorem Quote.backslash_ne (q : Quote) : '\\' ≠ q.char := by
  cases q <;> decide

/-- The value of a written string is the string, whatever is behind its closing quote. -/
theorem Quote.stringBody?_escape (q : Quote) (cs rest : List Char) :
    stringBody? q.char (cs.flatMap q.escape ++ q.char :: rest) =
      some (cs, (cs.flatMap q.escape).length + 1) := by
  induction cs with
  | nil => cases rest <;> simp [stringBody?]
  | cons c cs ih =>
      -- The literal goes on behind this character, at least with its closing quote.
      obtain ⟨d, tail, htail⟩ : ∃ d tail, cs.flatMap q.escape ++ q.char :: rest = d :: tail :=
        List.exists_cons_of_ne_nil (by simp)
      rw [List.flatMap_cons, List.append_assoc, htail]
      rw [htail] at ih
      rcases q.escape_cases c with ⟨x, hescape, hunescape⟩ | ⟨hescape, hquote, newline, backslash⟩
      · have ordinary := q.backslash_ne
        simp [hescape, stringBody?, ordinary, hunescape, ih]
      · simp [hescape, stringBody?, hquote, newline, backslash, ih]

/-- A text in quotes is scanned as itself, with its escapes undone. -/
theorem scan_quoted (cs rest : List Char) :
    scan '"' (cs.flatMap Quote.double.escape ++ '"' :: rest) =
      .ok (.token .string (String.ofList cs), (cs.flatMap Quote.double.escape).length + 1) := by
  have body := Quote.double.stringBody?_escape cs rest
  rw [Quote.char] at body
  unfold scan
  rw [body]
  rfl

/-- The lexer reads a word in front of a blank. -/
theorem scan_spelling {w : Word} (hw : w.Sound) (rest : List Char) :
    ∃ c cs, w.spelling = c :: cs ∧
      scan c (cs ++ ' ' :: rest) = .ok (.token w.shape.1 w.shape.2, cs.length) := by
  cases w with
  | name text =>
      simp only [Word.Sound, isIdent] at hw
      cases hchars : text.toList with
      | nil =>
          rw [hchars] at hw
          cases hw
      | cons c cs =>
          rw [hchars, Bool.and_eq_true] at hw
          have htext : text = String.ofList (c :: cs) := by rw [← hchars, String.ofList_toList]
          refine ⟨c, cs, hchars, ?_⟩
          rw [scan_name hw.1 (List.all_eq_true.mp hw.2) (by simp [isWordChar])]
          simp only [Word.shape, htext]
  | sign p => exact ⟨p.char, [], rfl, scan_sign p rest⟩
  | number n =>
      obtain ⟨c, cs, hchars⟩ := List.exists_cons_of_ne_nil (decimal_ne_nil n)
      refine ⟨c, cs, hchars, ?_⟩
      rw [scan_number (fun d hd => isDigit_of_mem_decimal (hchars ▸ hd))]
      simp only [Word.shape, hchars]
  | quoted text =>
      refine ⟨'"', text.toList.flatMap Quote.double.escape ++ ['"'], rfl, ?_⟩
      rw [List.append_assoc, List.singleton_append, scan_quoted]
      simp [Word.shape]

/-! ### Keywords -/

theorem isIdent_keyword (k : Keyword) : isIdent k.text = true := by
  cases k <;> decide +kernel

theorem wordKind_keyword (k : Keyword) : wordKind k.text = .keyword k := by
  cases k <;> decide +kernel

/-! ### Numbers -/

theorem decimal_head (n : Nat) : (decimal n).head? = some '0' → n = 0 := by
  induction n using Nat.strongRecOn with
  | ind n ih =>
      intro hhead
      unfold decimal at hhead
      rw [Nat.toDigits_eq_if (by decide)] at hhead
      split at hhead
      · next hlt =>
          have digits : ∀ d, d < 10 → Nat.digitChar d = '0' → d = 0 := by decide
          exact digits n hlt (by simpa using hhead)
      · next hge =>
          have front : (decimal (n / 10)).head? = some '0' := by
            obtain ⟨c, cs, hfront⟩ := List.exists_cons_of_ne_nil (decimal_ne_nil (n / 10))
            unfold decimal at hfront ⊢
            rw [hfront] at hhead ⊢
            exact hhead
          have zero := ih (n / 10) (by omega) front
          omega

/-- A number is read back unless it has too many digits. -/
theorem integer?_decimal {n : Nat} (h : (decimal n).length ≤ Number.maxDecimalDigits) :
    Number.integer? (decimal n) = some n := by
  have single : ∀ c cs, decimal n ≠ '0' :: c :: cs := by
    intro c cs hdigits
    have zero := decimal_head n (by rw [hdigits]; rfl)
    subst zero
    cases hdigits
  have plain : Number.integer? (decimal n) = Number.natOfDigits? 10 (decimal n) := by
    unfold Number.integer?
    split
    · next heq => exact absurd heq (decimal_ne_nil n)
    · next heq => exact absurd heq (single _ _)
    · next heq => exact absurd heq (single _ _)
    · next heq => exact absurd heq (single _ _)
    · rw [if_neg (by omega)]
  exact plain.trans (Number.natOfDigits?_toDigits (by decide) (by decide) n)

/-! ### Texts -/

theorem tokensFrom_blank (pos : Position) (rest : List Char) :
    tokensFrom pos (' ' :: rest) = tokensFrom (pos.next ' ') rest := by
  have gap : scan ' ' rest = .ok (.gap, 0) := rfl
  rw [tokensFrom, gap]
  show (tokensFrom (pos.next ' ') rest).map _ = _
  cases tokensFrom (pos.next ' ') rest <;> rfl

/-- Words with blanks between them are scanned one by one. -/
theorem tokensFrom_chars {ws : List Word} (hws : ∀ w ∈ ws, w.Sound) (pos : Position) :
    ∃ s, tokensFrom pos (chars ws) = .ok s ∧ s.tokens.map Token.shape = ws.map Word.shape := by
  induction ws generalizing pos with
  | nil => exact ⟨⟨[], pos⟩, by simp [chars, tokensFrom], rfl⟩
  | cons w ws ih =>
      obtain ⟨c, cs, hspelling, hscan⟩ := scan_spelling (hws w List.mem_cons_self) (chars ws)
      have text : chars (w :: ws) = c :: (cs ++ ' ' :: chars ws) := by
        simp [chars, hspelling]
      rw [text, tokensFrom, hscan]
      simp only [List.drop_left, tokensFrom_blank]
      obtain ⟨s, hs, hshapes⟩ := ih (fun v hv => hws v (List.mem_cons_of_mem w hv))
        (((Piece.token w.shape.1 w.shape.2).stop pos
        (c :: (cs ++ ' ' :: chars ws).take cs.length)).next
          ' ')
      rw [hs]
      refine ⟨_, rfl, ?_⟩
      simp [Piece.token?, Token.shape, ← hshapes]

/-- The lexer reads back what was written. -/
theorem tokens_spell {ws : List Word} (hws : ∀ w ∈ ws, w.Sound) :
    ∃ s, tokens (spell ws) = .ok s ∧ s.tokens.map Token.shape = ws.map Word.shape := by
  unfold tokens spell
  rw [String.toList_ofList]
  exact tokensFrom_chars hws .start

end Source

end ProtoRoutes
