import ProtoRoutes.Proofs.Grammar.NumberReadings
import ProtoRoutes.Proofs.Source.Writing

/-!
# ProtoRoutes.Proofs.Grammar.IntegerLexemes

Which number lexemes stand for an integer. A decimal number does if no zero stands in front of it
and it is not too long, a hexadecimal number does behind its mark, and an octal number behind a zero
(`IsInteger`). All of these are read as one token, and as the number that they are written for. Any
other number is refused at every place where an integer is needed: as the number of a field or an
enum value, and at both ends of a reserved range (`Token.Refused`).
-/

namespace ProtoRoutes

namespace Number

open Source (isHexDigit IsNumber)

/-- The lexemes of an integer. -/
inductive IsInteger (n : Nat) : List Char → Prop where
  /-- No zero stands in front of a decimal number, and there are not too many digits. -/
  | decimal (hlength : (Nat.toDigits 10 n).length ≤ maxDecimalDigits) :
      IsInteger n (Nat.toDigits 10 n)
  | hexadecimal {x : Char} {digits : List Char} (hx : x = 'x' ∨ x = 'X')
      (hdigits : IsNumeral 16 n digits) :
      IsInteger n ('0' :: x :: digits)
  | octal {digits : List Char} (hdigits : IsNumeral 8 n digits) : IsInteger n ('0' :: digits)

/-- The other numbers. -/
inductive IsOther : List Char → Prop where
  /-- No digit behind the mark of hexadecimal numbers. -/
  | bare {x : Char} (hx : x = 'x' ∨ x = 'X') : IsOther ['0', x]
  /-- A fraction or an exponent: not all characters are digits. -/
  | broken {w : List Char} (hdecimal : ¬ Source.StartsHex w) {c : Char} (hmem : c ∈ w)
      (hc : c.isDigit = false) : IsOther w
  /-- A digit behind the first zero that is not octal. -/
  | notOctal {digits : List Char} (hdigits : ∀ c ∈ digits, c.isDigit = true) {c : Char}
      (hmem : c ∈ digits)
      (hc : c = '8' ∨ c = '9') : IsOther ('0' :: digits)
  /-- Too many digits. -/
  | long {c : Char} {digits : List Char} (hfirst : c ≠ '0')
      (hdigits : ∀ d ∈ c :: digits, d.isDigit = true)
      (hlength : maxDecimalDigits < (c :: digits).length) : IsOther (c :: digits)

/-! ### The number of a lexeme -/

theorem isDigit_of_octal {n : Nat} {digits : List Char} (h : IsNumeral 8 n digits) :
    ∀ c ∈ digits, c.isDigit = true := by
  intro c hc
  obtain ⟨d, hd, hlt⟩ := h.digit (by decide) (by decide) c hc
  exact (digit?_of_lt_ten hd (by omega)).1

theorem integer?_of_octal {c : Char} (hc : c.isDigit = true) (digits : List Char) :
    integer? ('0' :: c :: digits) = natOfDigits? 8 (c :: digits) := by
  unfold integer?
  split
  · next heq => cases heq
  · next heq => cases heq; cases hc
  · next heq => cases heq; cases hc
  · next heq => cases heq; rfl
  · next hoctal => exact absurd rfl (hoctal c digits)

theorem integer?_of_first {c : Char} (hc : c ≠ '0') (digits : List Char) :
    integer? (c :: digits) =
      if maxDecimalDigits < (c :: digits).length then none else natOfDigits? 10 (c :: digits) := by
  unfold integer?
  split
  · next heq => cases heq
  · next heq => cases heq; exact absurd rfl hc
  · next heq => cases heq; exact absurd rfl hc
  · next heq => cases heq; exact absurd rfl hc
  · rfl

/-- Every lexeme of an integer is read as it. -/
theorem integer?_of_isInteger {n : Nat} {w : List Char} (h : IsInteger n w) :
    integer? w = some n := by
  cases h with
  | decimal hlength => exact Source.integer?_decimal hlength
  | hexadecimal hx hdigits =>
      rw [integer?_of_hex hx hdigits.ne_nil,
        natOfDigits?_of_isNumeral (by decide) (by decide) hdigits]
  | octal hdigits =>
      obtain ⟨c, cs, rfl⟩ := List.exists_cons_of_ne_nil hdigits.ne_nil
      rw [integer?_of_octal (isDigit_of_octal hdigits c List.mem_cons_self),
        natOfDigits?_of_isNumeral (by decide) (by decide) hdigits]

/-- A decimal numeral without a zero in front of others is that of `Nat.toDigits`. -/
theorem eq_toDigits_of_isNumeral {n : Nat} {digits : List Char} (h : IsNumeral 10 n digits)
    (hzero : ∀ c rest, digits ≠ '0' :: c :: rest) : digits = Nat.toDigits 10 n := by
  have small : digits.map Char.toLower = digits := by
    refine (List.map_congr_left fun c hc => ?_).trans (List.map_id digits)
    obtain ⟨d, hd, hlt⟩ := h.digit (by decide) (by decide) c hc
    obtain ⟨hdigit, -⟩ := digit?_of_lt_ten hd hlt
    refine Text.toLower_of_not_isUpper ?_
    cases hupper : c.isUpper with
    | false => rfl
    | true =>
        have := Text.not_small_of_isUpper hupper
        simp [hdigit] at this
  obtain ⟨zeros, hzeros⟩ := h
  rw [small] at hzeros
  cases zeros with
  | zero => exact hzeros
  | succ zeros =>
      obtain ⟨c, rest, hrest⟩ := List.exists_cons_of_ne_nil
        (List.append_ne_nil_of_right_ne_nil (List.replicate zeros '0') (@Nat.toDigits_ne_nil n 10))
      rw [List.replicate_succ, List.cons_append, hrest] at hzeros
      exact absurd hzeros (hzero c rest)

/-- **A lexeme stands for an integer exactly if it is one of those of the integer.** -/
theorem integer?_eq_some_iff {n : Nat} {w : List Char} : integer? w = some n ↔ IsInteger n w := by
  refine ⟨fun h => ?_, integer?_of_isInteger⟩
  unfold integer? at h
  split at h
  · cases h
  · next digits =>
      split at h
      · cases h
      · next hsome =>
          exact .hexadecimal (.inl rfl)
            (isNumeral_of_natOfDigits? (by decide) (by simpa using hsome) h)
  · next digits =>
      split at h
      · cases h
      · next hsome =>
          exact .hexadecimal (.inr rfl)
            (isNumeral_of_natOfDigits? (by decide) (by simpa using hsome) h)
  · next c digits _ _ => exact .octal (isNumeral_of_natOfDigits? (by decide) (by simp) h)
  · next hnil _ _ hzero =>
      split at h
      · cases h
      · next hlength =>
          have numeral := isNumeral_of_natOfDigits? (by decide) (fun hw => hnil hw) h
          have plain := eq_toDigits_of_isNumeral numeral fun c rest => hzero c rest
          rw [plain] at hlength ⊢
          exact .decimal (by omega)

/-! ### Other numbers -/

theorem octal_or_eight_or_nine {c : Char} (h : c.isDigit = true) :
    (∃ d, digit? c = some d ∧ d < 8) ∨ c = '8' ∨ c = '9' := by
  have hascii : c.toNat < 128 := by
    have high : c.toNat ≤ 57 :=
      UInt32.le_iff_toNat_le.mp (of_decide_eq_true (Bool.and_eq_true_iff.mp h).2)
    omega
  have tried := Text.forall_ascii (P := fun c => c.isDigit = true →
    ((digit? c).any fun d => decide (d < 8)) = true ∨ c = '8' ∨ c = '9')
    (by decide +kernel) hascii h
  refine tried.imp_left fun hsmall => ?_
  cases hd : digit? c with
  | none => rw [hd] at hsmall; cases hsmall
  | some d => rw [hd] at hsmall; exact ⟨d, rfl, of_decide_eq_true hsmall⟩

/-- No other number is read as an integer. -/
theorem integer?_of_isOther {w : List Char} (h : IsOther w) : integer? w = none := by
  cases hint : integer? w with
  | none => rfl
  | some n =>
      exfalso
      cases h with
      | bare hx => rcases hx with rfl | rfl <;> cases hint
      | broken hdecimal hmem hc =>
          rw [(integer?_of_decimal hdecimal hint).1 _ hmem] at hc
          cases hc
      | @notOctal digits hdigits c hmem hc =>
          obtain ⟨b, rest, rfl⟩ := List.exists_cons_of_ne_nil (List.ne_nil_of_mem hmem)
          rw [integer?_of_octal (hdigits b List.mem_cons_self)] at hint
          obtain ⟨d, hd, hlt⟩ := exists_natOfDigits?_iff.mp ⟨n, hint⟩ c hmem
          rcases hc with rfl | rfl
          · cases hd
            exact absurd hlt (by decide)
          · cases hd
            exact absurd hlt (by decide)
      | long hfirst _ hlength =>
          rw [integer?_of_first hfirst, if_pos hlength] at hint
          cases hint

theorem digit?_of_isDigit {c : Char} (h : c.isDigit = true) : ∃ d, digit? c = some d ∧ d < 10 := by
  rcases octal_or_eight_or_nine h with ⟨d, hd, hlt⟩ | rfl | rfl
  · exact ⟨d, hd, by omega⟩
  · exact ⟨8, rfl, by decide⟩
  · exact ⟨9, rfl, by decide⟩

/-- Digits alone are an integer, unless they are octal with one that is not, or too many. -/
theorem isInteger_or_isOther_of_digits {c : Char} {cs : List Char}
    (h : ∀ d ∈ c :: cs, d.isDigit = true) :
    (∃ n, IsInteger n (c :: cs)) ∨ IsOther (c :: cs) := by
  obtain ⟨hc, hcs⟩ := List.forall_mem_cons.mp h
  by_cases hzero : c = '0'
  · subst hzero
    by_cases hoctal : ∀ d ∈ cs, ∃ v, digit? d = some v ∧ v < 8
    · left
      by_cases hnone : cs = []
      · subst hnone
        exact ⟨0, .decimal (n := 0) (by decide)⟩
      · obtain ⟨n, hn⟩ := exists_natOfDigits?_iff.mpr hoctal
        exact ⟨n, .octal (isNumeral_of_natOfDigits? (by decide) hnone hn)⟩
    · right
      simp only [not_forall] at hoctal
      obtain ⟨d, hd, hlarge⟩ := hoctal
      exact .notOctal hcs hd ((octal_or_eight_or_nine (hcs d hd)).resolve_left hlarge)
  · by_cases hlength : maxDecimalDigits < (c :: cs).length
    · exact .inr (.long hzero h hlength)
    · left
      obtain ⟨n, hn⟩ := exists_natOfDigits?_iff.mpr fun d hd => digit?_of_isDigit (h d hd)
      exact ⟨n, integer?_eq_some_iff.mp (by rw [integer?_of_first hzero, if_neg hlength, hn])⟩

/-- **A number is an integer or one of the others.** -/
theorem isInteger_or_isOther {c : Char} {cs : List Char}
    (hw : Source.numberPart (c :: cs) = c :: cs) :
    (∃ n, IsInteger n (c :: cs)) ∨ IsOther (c :: cs) := by
  by_cases hex : Source.StartsHex (c :: cs)
  · obtain ⟨x, digits, hdigits, hx⟩ := hex
    rw [hdigits] at hw ⊢
    rw [Source.numberPart_of_hex hx] at hw
    injection hw with _ hw
    injection hw with _ hall
    by_cases hnone : digits = []
    · subst hnone
      exact .inr (.bare hx)
    · obtain ⟨n, hn⟩ := natOfDigits?_hex (List.takeWhile_eq_self_iff.mp hall)
      exact .inl ⟨n, .hexadecimal hx (isNumeral_of_natOfDigits? (by decide) hnone hn)⟩
  · by_cases hall : ∀ d ∈ c :: cs, d.isDigit = true
    · exact isInteger_or_isOther_of_digits hall
    · simp only [not_forall] at hall
      obtain ⟨d, hd, hother⟩ := hall
      exact .inr (.broken hex hd (by simpa using hother))

/-! ### Lexemes as tokens -/

theorem isHexDigit_of_digit? {c : Char} {d : Nat} (h : digit? c = some d) :
    isHexDigit c = true := by
  unfold digit? at h
  unfold isHexDigit
  split at h
  · next hdigit => simp [hdigit]
  · split at h
    · next hlower => simp [hlower]
    · split at h
      · next hupper => simp [hupper]
      · cases h

theorem IsInteger.isNumber {n : Nat} {w : List Char} (h : IsInteger n w) : IsNumber w := by
  have whole {digits : List Char} (hdigits : ∀ c ∈ digits, c.isDigit = true) (hsome : digits ≠ []) :
      IsNumber digits := by
    have := IsNumber.decimal hdigits hsome .none .none
    rwa [List.append_nil, List.append_nil] at this
  cases h with
  | decimal _ =>
      exact whole (fun c hc => Nat.isDigit_of_mem_toDigits (by decide) (by decide) hc)
        Nat.toDigits_ne_nil
  | hexadecimal hx hdigits =>
      refine .hexadecimal hx fun c hc => ?_
      obtain ⟨d, hd, -⟩ := hdigits.digit (by decide) (by decide) c hc
      exact isHexDigit_of_digit? hd
  | octal hdigits =>
      exact whole (List.forall_mem_cons.mpr ⟨rfl, isDigit_of_octal hdigits⟩) (List.cons_ne_nil _ _)

end Number

namespace Source

/-- A number is one token. -/
theorem tokensFrom_number {w : List Char} (h : IsNumber w) (pos : Position) :
    tokensFrom pos w = .ok ⟨[⟨.number, String.ofList w, pos, pos.line⟩], pos.right w.length⟩ := by
  obtain ⟨c, cs, rfl, hstart, hnumber⟩ := h.reads
  have line : '\n' ∉ c :: cs := hnumber ▸ newline_notMem_numberPart (c :: cs)
  have stop : (Piece.ofChars .number (c :: cs)).stop pos (c :: cs) = pos.right (c :: cs).length :=
    Position.after_of_no_newline pos line
  rw [tokensFrom, (Reads.number hstart hnumber).alone]
  simp only [List.take_length, List.drop_length, stop]
  rw [tokensFrom]
  rfl

theorem tokensFrom_minus {w : List Char} (h : IsNumber w) (pos : Position) :
    tokensFrom pos ('-' :: w) =
      .ok ⟨[⟨.punct .minus, "-", pos, pos.line⟩, ⟨.number, String.ofList w, pos.right 1, pos.line⟩],
        pos.right (w.length + 1)⟩ := by
  have sign : scan '-' w = .ok (.token (.punct .minus) "-", 0) := rfl
  rw [tokensFrom, sign]
  show (tokensFrom (pos.right 1) w).map _ = _
  rw [tokensFrom_number h]
  have column : pos.column + 1 + w.length = pos.column + (w.length + 1) := by omega
  simp [Except.map, Piece.token?, Piece.stop, Position.next, Position.right, column]

end Source

namespace Grammar

/-! ### Places of integers -/

/-- A token stands at a place as an integer, behind a minus sign or without one, and the other place
is behind it. -/
inductive Cursor.AtInteger (t : Token) : Bool → Cursor → Cursor → Prop where
  | unsigned {c : Cursor} (hnext : c.next = t) : AtInteger t false c c.step
  | negative {c : Cursor} (hsign : c.next.isPunct .minus = true) (hnext : c.step.next = t) :
      AtInteger t true c c.step.step

/-- What is read of a field in front of its number. -/
def fieldStart (mode : Mode) (inOneof : Bool) : Parser Token := do
  let _ ← takeComments mode
  let label ← fieldLabel inOneof
  let _ ← fieldType label
  let _ ← expectName .fieldName
  expectSign .equals

/-- What is read of an enum value in front of its number. -/
def enumValueStart (mode : Mode) : Parser Token := do
  let _ ← takeComments mode
  let _ ← expectName .enumValueName
  expectSign .equals

theorem bind_of_ok {α β : Type} {p : Parser α} {c d : Cursor} {a : α} (h : p c = .ok a d)
    (f : α → Parser β) : (p >>= f) c = f a d := by
  rw [bind_run, h]

theorem bind_of_error {α β : Type} {p : Parser α} {c d : Cursor} {e : Failure}
    (h : p c = .error e d) (f : α → Parser β) : (p >>= f) c = .error e d := by
  rw [bind_run, h]

/-- Behind its name and the sign, a field goes on with its number. -/
theorem field_of_start {mode : Mode} {oneof : Option String} {c d : Cursor} {t : Token}
    (h : fieldStart mode oneof.isSome c = .ok t d) (room : Nat) :
    ∃ behind, field mode room oneof c = (fieldNumber mode >>= behind) d := by
  obtain ⟨comments, c₁, hcomments, h⟩ := bind_ok_iff.mp h
  obtain ⟨label, c₂, hlabel, h⟩ := bind_ok_iff.mp h
  obtain ⟨type, c₃, htype, h⟩ := bind_ok_iff.mp h
  obtain ⟨name, c₄, hname, hequals⟩ := bind_ok_iff.mp h
  exact ⟨_, (bind_of_ok hcomments _).trans <| (bind_of_ok hlabel _).trans <|
    (bind_of_ok htype _).trans <|
    (bind_of_ok hname _).trans <| bind_of_ok hequals _⟩

theorem enumValue_of_start {mode : Mode} {c d : Cursor} {t : Token}
    (h : enumValueStart mode c = .ok t d)
    (room : Nat) : ∃ behind, enumValue mode room c = (signedInteger >>= behind) d := by
  obtain ⟨comments, c₁, hcomments, h⟩ := bind_ok_iff.mp h
  obtain ⟨name, c₂, hname, hequals⟩ := bind_ok_iff.mp h
  exact ⟨_, (bind_of_ok hcomments _).trans <| (bind_of_ok hname _).trans <| bind_of_ok hequals _⟩

/-- A reserved range starts with an integer. -/
theorem reservedRange_start (limit : Int) (c : Cursor) :
    ∃ behind, reservedRange limit c = (signedInteger >>= behind) c :=
  ⟨_, bind_of_ok (rfl : peek c = .ok c.next c) _⟩

/-- It goes on with a second integer behind the word `to`, unless the word `max` is there. -/
theorem reservedRange_to {limit first : Int} {c d : Cursor} (hfirst : signedInteger c = .ok first d)
    (hto : d.next.isWord "to" = true) (hmax : d.step.next.isWord "max" = false) :
    ∃ behind, reservedRange limit c = (signedInteger >>= behind) d.step := by
  have last : rangeEnd limit first d = signedInteger d.step := by
    simp [rangeEnd, bind_run, peek, advance, hto, hmax]
  have goesOn {β : Type} (f : Int → Parser β) :
      (rangeEnd limit first >>= f) d = (signedInteger >>= f) d.step := by
    rw [bind_run, bind_run, last]
  exact ⟨_, (bind_of_ok (rfl : peek c = .ok c.next c) _).trans <|
    (bind_of_ok hfirst _).trans <| goesOn _⟩

/-! ### Integers and other numbers -/

section

variable {t : Token} (hkind : t.kind = .number)

include hkind

theorem shown_of_number : t.shown = t.text := by
  simp [Token.shown, hkind]

theorem accept_minus {negative : Bool} {c d : Cursor} (h : Cursor.AtInteger t negative c d) :
    ∃ e, accept .minus c = .ok negative e ∧ e.next = t ∧ e.step = d := by
  cases h with
  | unsigned hnext =>
      refine ⟨c, ?_, hnext, rfl⟩
      rw [accept_run, if_neg (by simp [Token.isPunct, hnext, hkind])]
  | negative hsign hnext =>
      refine ⟨c.step, ?_, hnext, rfl⟩
      rw [accept_run, if_pos hsign]

/-- The sign is read before the number, and turns it. -/
theorem signedInteger_atInteger {n : Nat} (hint : Number.integer? t.text.toList = some n)
    {negative : Bool} {c d : Cursor} (h : Cursor.AtInteger t negative c d) :
    signedInteger c = .ok (if negative then -(n : Int) else n) d := by
  obtain ⟨e, hminus, rfl, rfl⟩ := accept_minus hkind h
  rw [signedInteger, bind_of_ok hminus, bind_of_ok (expectKind_number hkind _), hint]
  rfl

variable (hint : Number.integer? t.text.toList = none)

include hint

theorem signedInteger_refused {negative : Bool} {c d : Cursor}
    (h : Cursor.AtInteger t negative c d) :
    signedInteger c = .error (.error (.unexpected t.text t.pos .integer)) d := by
  obtain ⟨e, hminus, rfl, rfl⟩ := accept_minus hkind h
  rw [signedInteger, bind_of_ok hminus, bind_of_ok (expectKind_number hkind _), hint]
  simp only [unexpected, shown_of_number hkind]
  rfl

theorem fieldNumber_refused (mode : Mode) {c : Cursor} (hnext : c.next = t) :
    fieldNumber mode c = .error (.error (.unexpected t.text t.pos .integerFieldNumber)) c.step := by
  subst hnext
  rw [fieldNumber, bind_of_ok (expectKind_number hkind _), hint]
  simp only [unexpected, shown_of_number hkind]
  rfl

end

/-- A number that is refused wherever an integer is needed: as the number of a field or of an enum
value, at the start of a reserved range and behind its `to`. -/
structure Token.Refused (t : Token) : Prop where
  field : ∀ mode room oneof c equals d, fieldStart mode oneof.isSome c = .ok equals d → d.next = t →
    field mode room oneof c = .error (.error (.unexpected t.text t.pos .integerFieldNumber)) d.step
  enumValue : ∀ mode room c equals negative d e, enumValueStart mode c = .ok equals d →
    Cursor.AtInteger t negative d e →
    enumValue mode room c = .error (.error (.unexpected t.text t.pos .integer)) e
  rangeStart : ∀ limit c negative d, Cursor.AtInteger t negative c d →
    reservedRange limit c = .error (.error (.unexpected t.text t.pos .integer)) d
  rangeEnd : ∀ limit first c negative d e, signedInteger c = .ok first d →
    d.next.isWord "to" = true →
    Cursor.AtInteger t negative d.step e →
    reservedRange limit c = .error (.error (.unexpected t.text t.pos .integer)) e

/-- A number that is no integer is refused at all places where one is needed. -/
theorem refused_of_integer? {t : Token} (hkind : t.kind = .number)
    (hint : Number.integer? t.text.toList = none) : Token.Refused t where
  field mode room oneof c equals d hstart hnext := by
    obtain ⟨behind, hfield⟩ := field_of_start hstart room
    rw [hfield, bind_of_error (fieldNumber_refused hkind hint mode hnext)]
  enumValue mode room c equals negative d e hstart hat := by
    obtain ⟨behind, hvalue⟩ := enumValue_of_start hstart room
    rw [hvalue, bind_of_error (signedInteger_refused hkind hint hat)]
  rangeStart limit c negative d hat := by
    obtain ⟨behind, hrange⟩ := reservedRange_start limit c
    rw [hrange, bind_of_error (signedInteger_refused hkind hint hat)]
  rangeEnd limit first c negative d e hfirst hto hat := by
    have number : d.step.next.isWord "max" = false := by
      cases hat with
      | unsigned hnext => simp [Token.isWord, hnext, hkind]
      | negative hsign _ =>
          have sign : d.step.next.kind = .punct .minus := of_decide_eq_true hsign
          simp [Token.isWord, sign]
    obtain ⟨behind, hrange⟩ := @reservedRange_to limit first c d hfirst hto number
    rw [hrange, bind_of_error (signedInteger_refused hkind hint hat)]

/-- **Integer lexemes mean their number.** Each lexeme of an integer is one token, also behind a
minus sign, stands for the integer, and is read as it or as its negative. Every number token of a
text is such a lexeme or one of the others, which have a fraction, an exponent, a digit that is not
octal, none or too many digits. These stand for no integer, and are reported as unexpected wherever
an integer is needed. -/
theorem integer_lexemes_mean_their_number :
    (∀ n w, Number.IsInteger n w →
      Source.tokens (String.ofList w) = .ok ⟨[⟨.number, String.ofList w, ⟨1, 1⟩, 1⟩],
        ⟨1, 1 + w.length⟩⟩ ∧
      Source.tokens (String.ofList ('-' :: w)) =
        .ok ⟨[⟨.punct .minus, "-", ⟨1, 1⟩, 1⟩, ⟨.number, String.ofList w, ⟨1, 2⟩, 1⟩],
          ⟨1, 1 + (w.length + 1)⟩⟩ ∧
      Number.integer? w = some n ∧
      ∀ t negative c d, t.kind = .number → t.text = String.ofList w →
        Cursor.AtInteger t negative c d →
        signedInteger c = .ok (if negative then -(n : Int) else n) d) ∧
    ∀ text stream t, Source.tokens text = .ok stream → t ∈ stream.tokens → t.kind = .number →
      ((∃ n, Number.IsInteger n t.text.toList) ∨ Number.IsOther t.text.toList) ∧
      (Number.IsOther t.text.toList → Number.integer? t.text.toList = none ∧ Token.Refused t) := by
  refine ⟨fun n w h => ⟨?_, ?_, Number.integer?_of_isInteger h, ?_⟩, ?_⟩
  · rw [Source.tokens, String.toList_ofList]
    exact Source.tokensFrom_number h.isNumber .start
  · rw [Source.tokens, String.toList_ofList]
    exact Source.tokensFrom_minus h.isNumber .start
  · intro t negative c d hkind htext hat
    refine signedInteger_atInteger hkind ?_ hat
    rw [htext, String.toList_ofList, Number.integer?_of_isInteger h]
  · intro text stream t hread hmem hkind
    obtain ⟨c, cs, htext, -, hnumber⟩ := Source.number_reads_of_mem hread hmem hkind
    refine ⟨htext ▸ Number.isInteger_or_isOther hnumber, fun hother => ?_⟩
    have hint := Number.integer?_of_isOther hother
    exact ⟨hint, refused_of_integer? hkind hint⟩

/-- A number behind a minus sign, as a stream. -/
def afterMinus (lexeme : String) : TokenStream :=
  ⟨[⟨.punct .minus, "-", ⟨1, 1⟩, 1⟩, ⟨.number, lexeme, ⟨1, 2⟩, 1⟩], ⟨1, 1 + (lexeme.length + 1)⟩⟩

/-- A hexadecimal number with a zero and letters of both cases, and an octal one with a digit that
is not. -/
theorem integer_lexemes_signed :
    Source.tokens "-0x0fF" = .ok (afterMinus "0x0fF") ∧
      (∃ d, signedInteger (.ofStream (afterMinus "0x0fF")) = .ok (-255) d) ∧
      Source.tokens "-08" = .ok (afterMinus "08") ∧
      ∃ d, reservedRange 9 (.ofStream (afterMinus "08")) =
        .error (.error (.unexpected "08" ⟨1, 2⟩ .integer)) d := by
  obtain ⟨integers, others⟩ := integer_lexemes_mean_their_number
  have hex : Number.IsInteger 255 ['0', 'x', '0', 'f', 'F'] :=
    .hexadecimal (.inl rfl) ⟨1, by decide⟩
  obtain ⟨-, split, -, read⟩ := integers 255 _ hex
  have octal : Source.tokens "-08" = .ok (afterMinus "08") := by decide +kernel
  have member : (⟨.number, "08", ⟨1, 2⟩, 1⟩ : Token) ∈ (afterMinus "08").tokens := by
    simp [afterMinus]
  have other : Number.IsOther ['0', '8'] :=
    .notOctal (by simp) (List.mem_singleton_self '8') (.inl rfl)
  obtain ⟨-, refused⟩ := (others _ _ _ octal member rfl).2 other
  exact ⟨split, ⟨_, read ⟨.number, "0x0fF", ⟨1, 2⟩, 1⟩ true _ _ rfl rfl (.negative rfl rfl)⟩, octal,
    _, refused.rangeStart 9 _ true _ (.negative rfl rfl)⟩

end Grammar

end ProtoRoutes
