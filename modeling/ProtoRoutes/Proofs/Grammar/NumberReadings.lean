import ProtoRoutes.Grammar.Messages
import ProtoRoutes.Proofs.Grammar.Runs
import ProtoRoutes.Proofs.Number.Exactness
import ProtoRoutes.Proofs.Source.TokenClasses

/-!
# ProtoRoutes.Proofs.Grammar.NumberReadings

The two readings of a number lexeme. Field and enum numbers are read by `Number.integer?`, option
values by `Number.real`. On hexadecimal lexemes both use the same digits, and on decimal ones the
digits mean the same and small numbers are exact. An octal lexeme is different: as an option value
it is read as if it were decimal, and then it means the same only if all of its digits but the last
are zeros.

The digits of an octal lexeme are read in both bases at once. The two numbers stay equal as long as
they are less than eight, and from there on the decimal one is greater (`Behind`).
-/

namespace ProtoRoutes

namespace Number

/-! ### Digits -/

theorem digit?_of_lt_ten {c : Char} {d : Nat} (h : digit? c = some d) (hd : d < 10) :
    c.isDigit = true ∧ d = c.toNat - '0'.toNat := by
  simp only [digit?] at h
  split at h
  · next hdigit =>
      cases h
      exact ⟨hdigit, rfl⟩
  · split at h
    · cases h
      omega
    · split at h
      · cases h
        omega
      · cases h

/-- What is known of a number read in a small base and of the same digits read as decimal ones, if
every digit keeps it. -/
theorem foldlM_digits {base : Nat} (hbase : base ≤ 10) {Related : Nat → Nat → Prop}
    (hstep : ∀ m k d, Related m k → d < base → Related (m * base + d) (k * 10 + d)) {cs : List Char}
    {m n k : Nat} (hstart : Related m k)
    (h : cs.foldlM (fun n c => do
      let d ← digit? c
      if d < base then some (n * base + d) else none) m = some n) :
    (∀ c ∈ cs, c.isDigit = true) ∧
      Related n (cs.foldl (fun n c => n * 10 + (c.toNat - '0'.toNat)) k) := by
  induction cs generalizing m k with
  | nil =>
      cases h
      exact ⟨by simp, hstart⟩
  | cons c cs ih =>
      rw [List.foldlM_cons] at h
      obtain ⟨m', hm', h⟩ := Option.bind_eq_some_iff.mp h
      obtain ⟨d, hd, hm'⟩ := Option.bind_eq_some_iff.mp hm'
      split at hm'
      · next hlt =>
          cases hm'
          obtain ⟨hdigit, hvalue⟩ := digit?_of_lt_ten hd (by omega)
          obtain ⟨hall, hrelated⟩ := ih (hstep m k d hstart hlt) h
          rw [hvalue] at hrelated
          exact ⟨by simpa [hdigit] using hall, hrelated⟩
      · cases hm'

theorem natOfDigits?_ten {cs : List Char} {n : Nat} (h : natOfDigits? 10 cs = some n) :
    (∀ c ∈ cs, c.isDigit = true) ∧ decimalValue cs = n := by
  obtain ⟨hall, heq⟩ :=
    @foldlM_digits 10 (by decide) Eq (fun m k d hmk _ => by rw [hmk]) cs 0 n 0 rfl h
  exact ⟨hall, heq.symm⟩

/-- How an octal number relates to the decimal one with the same digits. -/
def Behind (octal decimal : Nat) : Prop :=
  octal < 8 ∧ decimal = octal ∨ 8 ≤ octal ∧ octal < decimal

theorem natOfDigits?_eight {cs : List Char} {n : Nat} (h : natOfDigits? 8 cs = some n) :
    (∀ c ∈ cs, c.isDigit = true) ∧ Behind n (decimalValue cs) := by
  refine @foldlM_digits 8 (by decide) Behind (fun m k d hmk hd => ?_) cs 0 n 0
    (.inl ⟨by decide, rfl⟩) h
  simp only [Behind] at hmk ⊢
  omega

/-! ### Decimal lexemes -/

/-- Digits alone have no fraction and no exponent. -/
theorem ofDecimalLexeme_of_digits {w : List Char} (h : ∀ c ∈ w, c.isDigit = true) :
    ofDecimalLexeme w = Binary64.ofDecimal (decimalValue w) 0 := by
  have whole : w.takeWhile Char.isDigit = w := List.takeWhile_eq_self_iff.mpr h
  have behind : w.dropWhile Char.isDigit = [] := List.dropWhile_eq_nil_iff.mpr h
  simp [ofDecimalLexeme, whole, behind, exponentValue, decimalValue]

theorem ofDecimal_zero (d : Nat) :
    Binary64.ofDecimal d 0 =
      if 310 ≤ (Nat.toDigits 10 d).length then .infinite false else Binary64.ofNat d := by
  by_cases hd : d = 0
  · subst hd
    rfl
  · have hlow : ¬ ((Nat.toDigits 10 d).length : Int) ≤ -324 := by omega
    simp [Binary64.ofDecimal, Binary64.ofNat, Binary64.pow10, hd, hlow]

/-- A decimal stands for a small number exactly if it is this number. -/
theorem value?_ofDecimal_iff {d n : Nat} (hsmall : n < 2 ^ 53) :
    (Binary64.ofDecimal d 0).value? = some (n : ℚ) ↔ d = n := by
  rw [ofDecimal_zero]
  split
  · next hlong =>
      constructor
      · intro h
        cases h
      · rintro rfl
        have hdigits : (Nat.toDigits 10 d).length ≤ 16 :=
          (Nat.length_toDigits_le_iff (by decide) (by decide)).mpr
            (Nat.lt_of_lt_of_le hsmall (by decide))
        omega
  · rcases Nat.lt_or_ge d (2 ^ 53) with hd | hd
    · rw [Binary64.value?_ofNat hd, Option.some.injEq, Nat.cast_inj]
    · constructor
      · intro h
        have hle := Binary64.le_of_value?_ofNat hd h
        have hlt : (n : ℚ) < 2 ^ 53 := by exact_mod_cast hsmall
        exact absurd hle (not_le.mpr hlt)
      · intro h
        omega

/-! ### Lexemes -/

/-- An octal lexeme: a zero with something behind it that does not make it hexadecimal. -/
def isOctal : List Char → Bool
  | '0' :: c :: _ => c ≠ 'x' && c ≠ 'X'
  | _ => false

theorem ofHexDigits_of_small {digits : List Char} {n : Nat} (hsome : digits ≠ [])
    (hvalue : natOfDigits? 16 digits = some n) (hsmall : n < 2 ^ 53) :
    ∃ x, ofHexDigits digits = .ok x ∧ x.value? = some (n : ℚ) := by
  have hexact := Binary64.value?_ofNat hsmall
  have given : (if digits.isEmpty then none else natOfDigits? 16 digits) = some n := by
    rw [if_neg (by simpa using hsome), hvalue]
  simp only [ofHexDigits, given]
  cases hround : Binary64.ofNat n with
  | finite negative m e => exact ⟨_, rfl, hround ▸ hexact⟩
  | infinite negative =>
      rw [hround] at hexact
      cases hexact
  | nan =>
      rw [hround] at hexact
      cases hexact

theorem integer?_of_decimal {w : List Char} {n : Nat} (hdecimal : ¬ Source.StartsHex w)
    (h : integer? w = some n) :
    (∀ c ∈ w, c.isDigit = true) ∧
      if isOctal w then Behind n (decimalValue w) else decimalValue w = n := by
  unfold integer? at h
  split at h
  · cases h
  · next digits => exact absurd ⟨'x', digits, rfl, .inl rfl⟩ hdecimal
  · next digits => exact absurd ⟨'X', digits, rfl, .inr rfl⟩ hdecimal
  · next c digits hx hX =>
      obtain ⟨hall, hbehind⟩ := natOfDigits?_eight h
      have octal : isOctal ('0' :: c :: digits) = true := by
        simp [isOctal]
        grind
      have leading : decimalValue ('0' :: c :: digits) = decimalValue (c :: digits) := rfl
      rw [if_pos octal, leading]
      exact ⟨List.forall_mem_cons.mpr ⟨by decide, hall⟩, hbehind⟩
  · next hnil hx hX hoctal =>
      split at h
      · cases h
      · have plain : ¬ isOctal w = true := by
          intro octal
          unfold isOctal at octal
          split at octal
          · exact hoctal _ _ rfl
          · cases octal
        rw [if_neg plain]
        exact natOfDigits?_ten h

/-- **The readings of a lexeme agree unless it is octal with a value of two octal digits or more.**
-/
theorem exists_real_of_integer? {w : List Char} {n : Nat} (hint : integer? w = some n)
    (hsmall : n < 2 ^ 53) :
    ∃ x, real w = .ok x ∧ (x.value? = some (n : ℚ) ↔ (isOctal w = true → n < 8)) := by
  by_cases hex : Source.StartsHex w
  · obtain ⟨mark, digits, rfl, hmark⟩ := hex
    have hsome : digits ≠ [] := by
      rintro rfl
      rcases hmark with rfl | rfl <;> cases hint
    rw [integer?_of_hex hmark hsome] at hint
    obtain ⟨x, hx, hvalue⟩ := ofHexDigits_of_small hsome hint hsmall
    have plain : isOctal ('0' :: mark :: digits) = false := by
      rcases hmark with rfl | rfl <;> rfl
    exact ⟨x, by rw [real_of_hex hmark, hx], by simp [hvalue, plain]⟩
  · obtain ⟨hall, hdigits⟩ := integer?_of_decimal hex hint
    refine ⟨_, real_of_decimal hex, ?_⟩
    rw [ofDecimalLexeme_of_digits hall, value?_ofDecimal_iff hsmall]
    split at hdigits
    · next octal =>
        simp only [Behind] at hdigits
        simp only [octal, true_imp_iff]
        omega
    · next plain => simp [hdigits, plain]

end Number

namespace Grammar

/-! ### Rules -/

section Rules

variable {c : Cursor} {n : Nat} (hkind : c.next.kind = .number)

include hkind

theorem expectKind_number (expected : Expected) :
    expectKind .number expected c = .ok c.next c.step := by
  simp only [expectKind, bind_run, peek, hkind, if_pos, advance]

theorem fieldNumber_run (hint : Number.integer? c.next.text.toList = some n) {mode : Mode}
    (hrange : mode.strict = true → 1 ≤ n ∧ n ≤ maxFieldNumber) :
      fieldNumber mode c = .ok n c.step := by
  have inside : ¬ (mode.strict = true ∧ (n = 0 ∨ maxFieldNumber < n)) := by
    intro h
    have := hrange h.1
    omega
  simp [fieldNumber, bind_run, expectKind_number hkind, hint, inside, pure_run]

theorem signedInteger_run (hint : Number.integer? c.next.text.toList = some n) :
    signedInteger c = .ok (n : Int) c.step := by
  have unsigned : accept .minus c = .ok false c := by
    simp [accept, bind_run, peek, Token.isPunct, hkind, pure_run]
  simp [signedInteger, bind_run, unsigned, expectKind_number hkind, hint, pure_run]

theorem optionValue_run {x : Binary64} (hreal : Number.real c.next.text.toList = .ok x)
    (room : Nat) :
    optionValue room c = .ok (.number x) c.step := by
  simp [optionValue, valueWithin, valueStep, bind_run, peek, hkind, advance, numberOf,
    hreal, pure_run]

end Rules

/-- **A number means the same everywhere unless it is octal.** Take a number lexeme whose integer is
less than `2 ^ 53`. As a field number and as an enum number it is this integer, as an option value
it is a binary number, and this one stands for the integer if and only if the lexeme is not octal or
the integer is less than eight. -/
theorem number_readings_agree_iff {t : Token} (hkind : t.kind = .number) {n : Nat}
    (hint : Number.integer? t.text.toList = some n) (hsmall : n < 2 ^ 53) :
    ∃ x, (∀ c : Cursor, c.next = t →
        (∀ mode : Mode, (mode.strict = true → 1 ≤ n ∧ n ≤ maxFieldNumber) →
          fieldNumber mode c = .ok n c.step) ∧
        signedInteger c = .ok (n : Int) c.step ∧
        ∀ room, optionValue room c = .ok (.number x) c.step) ∧
      Number.real t.text.toList = .ok x ∧
      (x.value? = some (n : ℚ) ↔ (Number.isOctal t.text.toList = true → n < 8)) := by
  obtain ⟨x, hreal, hvalue⟩ := Number.exists_real_of_integer? hint hsmall
  refine ⟨x, fun c hnext => ?_, hreal, hvalue⟩
  subst hnext
  exact ⟨fun mode hrange => fieldNumber_run hkind hint hrange, signedInteger_run hkind hint,
    optionValue_run hkind hreal⟩

/-- An octal number without a second digit that counts. -/
theorem number_readings_agree_padded :
    ∃ t stop x, Source.tokens "007" = .ok ⟨[t], stop⟩ ∧ t.kind = .number ∧
      Number.integer? t.text.toList = some 7 ∧ Number.real t.text.toList = .ok x ∧
      x.value? = some (7 : Nat) := by
  have read : Source.tokens "007" = .ok ⟨[⟨.number, "007", ⟨1, 1⟩, 1⟩], ⟨1, 4⟩⟩ := by decide +kernel
  have hint : Number.integer? "007".toList = some 7 := by decide
  obtain ⟨x, -, hreal, hvalue⟩ :=
    @number_readings_agree_iff ⟨.number, "007", ⟨1, 1⟩, 1⟩ rfl 7 hint (by decide)
  exact ⟨_, _, x, read, rfl, hint, hreal, hvalue.mpr fun _ => by decide⟩

/-- One lexeme as an enum number and as an option value: `enum E { A = 010 [b = 010]; }`. -/
def octalTwice : TokenStream where
  tokens :=
    [⟨.keyword .enumKw, "enum", ⟨1, 1⟩, 1⟩, ⟨.ident, "E", ⟨1, 6⟩, 1⟩,
      ⟨.punct .lbrace, "\x7b", ⟨1, 8⟩, 1⟩,
      ⟨.ident, "A", ⟨1, 10⟩, 1⟩, ⟨.punct .equals, "=", ⟨1, 12⟩, 1⟩, ⟨.number, "010", ⟨1, 14⟩, 1⟩,
      ⟨.punct .lbracket, "[", ⟨1, 18⟩, 1⟩, ⟨.ident, "b", ⟨1, 19⟩, 1⟩,
      ⟨.punct .equals, "=", ⟨1, 21⟩, 1⟩,
      ⟨.number, "010", ⟨1, 23⟩, 1⟩, ⟨.punct .rbracket, "]", ⟨1, 26⟩, 1⟩,
      ⟨.punct .semicolon, ";", ⟨1, 27⟩, 1⟩,
      ⟨.punct .rbrace, "\x7d", ⟨1, 29⟩, 1⟩]
  stop := ⟨1, 30⟩

/-- As an enum number it is eight, and as an option value ten. -/
theorem octal_readings_differ :
    ∃ f x, parse ⟨true, true⟩ "enum E \x7b A = 010 [b = 010]; \x7d" = .ok f ∧
      (f.enums.map fun e => e.values.map fun v => (v.number, v.options.map SchemaOption.value)) =
        [[(8, [.number x])]] ∧
      x.value? = some (10 : Nat) ∧ x.value? ≠ some (8 : Nat) := by
  have htokens : Source.tokens "enum E \x7b A = 010 [b = 010]; \x7d" = .ok octalTwice := by
    decide +kernel
  have hread : ∃ f, parse ⟨true, true⟩ "enum E \x7b A = 010 [b = 010]; \x7d" = .ok f ∧
      (f.enums.map fun e => e.values.map fun v => (v.number, v.options.map SchemaOption.value)) =
        [[(8, [.number (.ofNat 10)])]] := by
    unfold parse read
    rw [htokens]
    exact ⟨_, rfl, rfl⟩
  obtain ⟨f, hf, hvalues⟩ := hread
  have ten : (Binary64.ofNat 10).value? = some (10 : Nat) := Binary64.value?_ofNat (by decide)
  refine ⟨f, _, hf, hvalues, ten, ?_⟩
  rw [ten]
  simp

end Grammar

end ProtoRoutes
