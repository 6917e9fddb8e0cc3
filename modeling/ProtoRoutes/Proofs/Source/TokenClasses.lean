import ProtoRoutes.Proofs.Number.Overflow
import ProtoRoutes.Proofs.Source.Spans

/-!
# ProtoRoutes.Proofs.Source.TokenClasses

What a token of a class looks like, wherever it stands: a name is a word, and a number is written as
`numberPart` takes it. From that follows which numbers stand for no floating-point number. A decimal
one always stands for one; of the hexadecimal ones, those without a digit and those from
`2 ^ 1024 - 2 ^ 970` on do not (`real_eq_error_iff`).
-/

namespace ProtoRoutes

namespace Source

/-! ### Tokens and their classes -/

/-- Every token was read as one of the classes allows. -/
theorem reads_of_mem {pos : Position} {cs : List Char} {stream : TokenStream}
    (h : tokensFrom pos cs = .ok stream) {t : Token} (ht : t ∈ stream.tokens) :
    ∃ c span, Reads c span (.token t.kind t.text) := by
  fun_induction tokensFrom pos cs generalizing stream with
  | case1 =>
      cases h
      cases ht
  | case2 => cases h
  | case3 pos c rest piece n hscan stop =>
      rename_i ih
      cases hrest : tokensFrom stop (rest.drop n) with
      | error e =>
          rw [hrest] at h
          cases h
      | ok others =>
          rw [hrest] at h
          cases h
          rcases List.mem_append.mp ht with ht | ht
          · obtain ⟨span, -, -, -, hreads⟩ := takes_of_scan hscan
            cases piece with
            | gap => cases ht
            | token kind text =>
                cases List.mem_singleton.mp ht
                exact ⟨c, span, hreads⟩
          · exact ih hrest ht

theorem wordKind_ne_number (word : String) : wordKind word ≠ .number := by
  unfold wordKind
  split <;> simp

theorem number_reads_of_mem {text : String} {stream : TokenStream} (h : tokens text = .ok stream)
    {t : Token} (ht : t ∈ stream.tokens) (hkind : t.kind = .number) :
    ∃ c cs, t.text.toList = c :: cs ∧ startsNumber c cs = true ∧
      numberPart (c :: cs) = c :: cs := by
  obtain ⟨c, span, hreads⟩ := reads_of_mem h ht
  rw [hkind] at hreads
  generalize hpiece : Piece.token .number t.text = piece at hreads
  cases hreads with
  | gap _ => cases hpiece
  | lineComment _ _ => cases hpiece
  | blockComment _ _ => cases hpiece
  | string _ _ _ => cases hpiece
  | number hstart hnumber =>
      injection hpiece with _ htext
      exact ⟨c, span, by rw [htext, String.toList_ofList], hstart, hnumber⟩
  | word _ _ =>
      injection hpiece with hword
      exact absurd hword.symm (wordKind_ne_number _)
  | sign _ => cases hpiece

theorem number_of_mem {text : String} {stream : TokenStream} (h : tokens text = .ok stream)
    {t : Token} (ht : t ∈ stream.tokens) (hkind : t.kind = .number) :
    numberPart t.text.toList = t.text.toList := by
  obtain ⟨c, cs, htext, -, hnumber⟩ := number_reads_of_mem h ht hkind
  rw [htext, hnumber]

/-- The end of a text is none of its tokens. -/
theorem kind_ne_eof_of_mem {text : String} {stream : TokenStream} (h : tokens text = .ok stream)
    {t : Token} (ht : t ∈ stream.tokens) : t.kind ≠ .eof := by
  intro hkind
  obtain ⟨c, span, hreads⟩ := reads_of_mem h ht
  rw [hkind] at hreads
  generalize hpiece : Piece.token .eof t.text = piece at hreads
  cases hreads with
  | gap _ => cases hpiece
  | lineComment _ _ => cases hpiece
  | blockComment _ _ => cases hpiece
  | string _ _ _ => cases hpiece
  | number _ _ => cases hpiece
  | word _ _ =>
      injection hpiece with hword
      unfold wordKind at hword
      split at hword
      · cases hword
      · cases hword
  | sign _ => cases hpiece

/-- A name is a letter or an underscore, and more of them and digits behind it. -/
theorem word_of_mem {text : String} {stream : TokenStream} (h : tokens text = .ok stream)
    {t : Token} (ht : t ∈ stream.tokens) (hname : t.isName = true) :
    ∃ c cs, t.text = String.ofList (c :: cs) ∧ isWordStart c = true ∧
      ∀ d ∈ cs, isWordChar d = true := by
  obtain ⟨c, span, hreads⟩ := reads_of_mem h ht
  unfold Token.isName Token.isKeyword at hname
  generalize t.kind = kind at hreads hname
  generalize hpiece : Piece.token kind t.text = piece at hreads
  cases hreads with
  | gap _ => cases hpiece
  | lineComment _ _ =>
      injection hpiece with hkind
      subst hkind
      cases hname
  | blockComment _ _ =>
      injection hpiece with hkind
      subst hkind
      cases hname
  | string _ _ _ =>
      injection hpiece with hkind
      subst hkind
      cases hname
  | number _ _ =>
      injection hpiece with hkind
      subst hkind
      cases hname
  | word hstart hall =>
      injection hpiece with _ htext
      exact ⟨c, span, htext, hstart, hall⟩
  | sign _ =>
      injection hpiece with hkind
      subst hkind
      cases hname

end Source

namespace Number

open Source (isHexDigit numberPart StartsHex)

/-! ### Hexadecimal numbers -/

theorem digit?_of_isHexDigit {c : Char} (h : isHexDigit c = true) :
    ∃ d, digit? c = some d ∧ d < 16 := by
  have numeric : ∀ a b : Char, a ≤ b → a.toNat ≤ b.toNat := fun a b => UInt32.le_iff_toNat_le.mp
  unfold digit?
  by_cases hdecimal : c.isDigit = true
  · have high : c.toNat ≤ 57 := by
      simp only [Char.isDigit, Bool.and_eq_true, decide_eq_true_eq] at hdecimal
      exact UInt32.le_iff_toNat_le.mp hdecimal.2
    rw [if_pos hdecimal]
    exact ⟨_, rfl, by simp at high ⊢; omega⟩
  rw [if_neg hdecimal]
  by_cases hlower : 'a' ≤ c ∧ c ≤ 'f'
  · have high := numeric _ _ hlower.2
    rw [if_pos hlower]
    exact ⟨_, rfl, by simp at high ⊢; omega⟩
  rw [if_neg hlower]
  by_cases hupper : 'A' ≤ c ∧ c ≤ 'F'
  · have high := numeric _ _ hupper.2
    rw [if_pos hupper]
    exact ⟨_, rfl, by simp at high ⊢; omega⟩
  · simp [isHexDigit, hdecimal, hlower, hupper] at h

theorem natOfDigits?_hex {cs : List Char} (h : ∀ c ∈ cs, isHexDigit c = true) :
    ∃ n, natOfDigits? 16 cs = some n :=
  exists_natOfDigits?_iff.mpr fun c hc => digit?_of_isHexDigit (h c hc)

/-- Why a number lexeme stands for no floating-point number, in terms of the lexeme. -/
def Fault.IsOf (w : List Char) : Fault → Prop
  | .noHexDigits => w = ['0', 'x'] ∨ w = ['0', 'X']
  | .hexOverflow => StartsHex w ∧ ∃ n, integer? w = some n ∧ 2 ^ 1024 - 2 ^ 970 ≤ n

theorem ofHexDigits_eq_error_iff {digits : List Char} {n : Nat} (hsome : digits ≠ [])
    (hvalue : natOfDigits? 16 digits = some n) {fault : Fault} :
    ofHexDigits digits = .error fault ↔ fault = .hexOverflow ∧ 2 ^ 1024 - 2 ^ 970 ≤ n := by
  have given : (if digits.isEmpty then none else natOfDigits? 16 digits) = some n := by
    rw [if_neg (by simpa using hsome), hvalue]
  unfold ofHexDigits
  rw [given]
  simp only
  cases hround : Binary64.ofNat n with
  | infinite negative =>
      have overflow := (Binary64.ofNat_eq_infinite_iff.mp hround).2
      simp only [Except.error.injEq]
      exact ⟨fun h => ⟨h.symm, overflow⟩, fun h => h.1.symm⟩
  | finite negative mantissa exponent =>
      refine ⟨(nomatch ·), fun h => ?_⟩
      have overflow := Binary64.ofNat_eq_infinite_iff.mpr ⟨rfl, h.2⟩
      rw [hround] at overflow
      cases overflow
  | nan =>
      refine ⟨(nomatch ·), fun h => ?_⟩
      have overflow := Binary64.ofNat_eq_infinite_iff.mpr ⟨rfl, h.2⟩
      rw [hround] at overflow
      cases overflow

theorem real_of_hex {x : Char} (hx : x = 'x' ∨ x = 'X') (digits : List Char) :
    real ('0' :: x :: digits) = ofHexDigits digits := by
  rcases hx with rfl | rfl <;> rfl

theorem integer?_of_hex {x : Char} (hx : x = 'x' ∨ x = 'X') {digits : List Char}
    (hsome : digits ≠ []) :
    integer? ('0' :: x :: digits) = natOfDigits? 16 digits := by
  have given : digits.isEmpty = false := by simpa using hsome
  rcases hx with rfl | rfl <;> simp [integer?, given]

theorem real_of_decimal {w : List Char} (hdecimal : ¬ StartsHex w) :
    real w = .ok (ofDecimalLexeme w) := by
  unfold real
  split
  · next digits => exact absurd ⟨'x', digits, rfl, .inl rfl⟩ hdecimal
  · next digits => exact absurd ⟨'X', digits, rfl, .inr rfl⟩ hdecimal
  · rfl

/-- **The numbers without a floating-point number are few**: those without a digit behind the mark
of hexadecimal numbers, and hexadecimal ones that are too great. -/
theorem real_eq_error_iff {w : List Char} (hw : numberPart w = w) {fault : Fault} :
    real w = .error fault ↔ fault.IsOf w := by
  by_cases hex : StartsHex w
  · obtain ⟨x, digits, rfl, hx⟩ := hex
    rw [Source.numberPart_of_hex hx] at hw
    injection hw with _ hw
    injection hw with _ hdigits
    have hall : ∀ c ∈ digits, isHexDigit c = true := by
      intro c hc
      rw [← hdigits] at hc
      exact List.mem_takeWhile_imp hc
    rw [real_of_hex hx]
    by_cases hnone : digits = []
    · subst hnone
      have mark : ['0', x] = ['0', 'x'] ∨ ['0', x] = ['0', 'X'] := by
        rcases hx with rfl | rfl
        · exact .inl rfl
        · exact .inr rfl
      have unset : integer? ['0', x] = none := by
        rcases hx with rfl | rfl <;> rfl
      cases fault with
      | noHexDigits => exact ⟨fun _ => mark, fun _ => rfl⟩
      | hexOverflow =>
          refine ⟨(nomatch ·), fun h => ?_⟩
          obtain ⟨-, n, hn, -⟩ := h
          rw [unset] at hn
          cases hn
    · obtain ⟨n, hn⟩ := natOfDigits?_hex hall
      rw [ofHexDigits_eq_error_iff hnone hn]
      cases fault with
      | noHexDigits =>
          refine ⟨fun h => (nomatch h.1), fun h => ?_⟩
          rcases h with h | h
          · injection h with _ h
            injection h with _ h
            exact absurd h hnone
          · injection h with _ h
            injection h with _ h
            exact absurd h hnone
      | hexOverflow =>
          simp only [true_and, Fault.IsOf, integer?_of_hex hx hnone, hn, Option.some.injEq]
          constructor
          · intro h
            exact ⟨⟨x, digits, rfl, hx⟩, n, rfl, h⟩
          · rintro ⟨-, m, rfl, h⟩
            exact h
  · rw [real_of_decimal hex]
    refine ⟨(nomatch ·), fun h => ?_⟩
    cases fault with
    | noHexDigits =>
        rcases h with rfl | rfl
        · exact absurd ⟨'x', [], rfl, .inl rfl⟩ hex
        · exact absurd ⟨'X', [], rfl, .inr rfl⟩ hex
    | hexOverflow => exact absurd h.1 hex

end Number

end ProtoRoutes
