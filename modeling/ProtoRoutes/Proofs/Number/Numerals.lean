import Mathlib.Data.List.Induction
import ProtoRoutes.Number.Literal
import ProtoRoutes.Proofs.Text.Ascii

/-!
# ProtoRoutes.Proofs.Number.Numerals

Digits and the numbers that they stand for. The digits of a number in a base are those of
`Nat.toDigits`, but letters may be large or small, and zeros may stand in front of them
(`IsNumeral`). Digits are read as a number exactly if they are such a numeral of it.
-/

namespace ProtoRoutes.Number

/-- The digits of a number in a base, in any letter case and with any number of zeros in front of
them. -/
def IsNumeral (base n : Nat) (digits : List Char) : Prop :=
  ∃ zeros, digits.map Char.toLower = List.replicate zeros '0' ++ Nat.toDigits base n

/-! ### Digits -/

theorem digit?_digitChar {d : Nat} (h : d < 16) : digit? (Nat.digitChar d) = some d := by
  have all : ∀ d, d < 16 → digit? (Nat.digitChar d) = some d := by decide
  exact all d h

theorem digit?_toLower (c : Char) : digit? c.toLower = digit? c := by
  by_cases h : c.isUpper = true
  · exact Text.forall_ascii (P := fun c => digit? c.toLower = digit? c) (by decide +kernel)
      (Text.ascii_of_isUpper h)
  · rw [Text.toLower_of_not_isUpper (by simpa using h)]

theorem ascii_of_digit? {c : Char} {d : Nat} (h : digit? c = some d) : c.toNat < 128 := by
  have numeric : ∀ b : Char, c ≤ b → c.toNat ≤ b.toNat := fun b => UInt32.le_iff_toNat_le.mp
  unfold digit? at h
  split at h
  · next hdigit =>
      have := numeric '9' (of_decide_eq_true (Bool.and_eq_true_iff.mp hdigit).2)
      exact Nat.lt_of_le_of_lt this (by decide)
  · split at h
    · next hlower => exact Nat.lt_of_le_of_lt (numeric 'f' hlower.2) (by decide)
    · split at h
      · next hupper => exact Nat.lt_of_le_of_lt (numeric 'F' hupper.2) (by decide)
      · cases h

/-- A digit is the one that is written for its value. -/
theorem toLower_of_digit? {c : Char} {d : Nat} (h : digit? c = some d) :
    c.toLower = Nat.digitChar d := by
  have tried := Text.forall_ascii
    (P := fun c => ((digit? c).all fun d => decide (c.toLower = Nat.digitChar d)) = true)
    (by decide +kernel) (ascii_of_digit? h)
  rw [h] at tried
  exact of_decide_eq_true tried

/-! ### Numerals -/

section

variable {base : Nat}

theorem natOfDigits?_nil : natOfDigits? base [] = some 0 := rfl

theorem natOfDigits?_concat (digits : List Char) (c : Char) :
    natOfDigits? base (digits ++ [c]) = (natOfDigits? base digits).bind fun n =>
      (digit? c).bind fun d => if d < base then some (n * base + d) else none := by
  unfold natOfDigits?
  rw [List.foldlM_append]
  simp

theorem natOfDigits?_toLower (digits : List Char) :
    natOfDigits? base (digits.map Char.toLower) = natOfDigits? base digits := by
  simp only [natOfDigits?, List.foldlM_map, digit?_toLower]

/-- Characters are read as some number exactly if all of them are digits of the base. -/
theorem exists_natOfDigits?_iff {digits : List Char} :
    (∃ n, natOfDigits? base digits = some n) ↔ ∀ c ∈ digits, ∃ d, digit? c = some d ∧ d < base := by
  induction digits using List.reverseRecOn with
  | nil => simp [natOfDigits?_nil]
  | append_singleton front c ih =>
      have whole : (∀ b ∈ front ++ [c], ∃ d, digit? b = some d ∧ d < base) ↔
          (∀ b ∈ front, ∃ d, digit? b = some d ∧ d < base) ∧ ∃ d, digit? c = some d ∧ d < base := by
        simp only [List.mem_append, List.mem_singleton, or_imp, forall_and, forall_eq]
      rw [whole, ← ih, natOfDigits?_concat]
      constructor
      · rintro ⟨n, h⟩
        obtain ⟨m, hm, h⟩ := Option.bind_eq_some_iff.mp h
        obtain ⟨d, hd, h⟩ := Option.bind_eq_some_iff.mp h
        split at h
        · next hlt => exact ⟨⟨m, hm⟩, d, hd, hlt⟩
        · cases h
      · rintro ⟨⟨m, hm⟩, d, hd, hlt⟩
        exact ⟨m * base + d, by simp [hm, hd, hlt]⟩

variable (hbase : 1 < base)

include hbase

theorem natOfDigits?_toDigits (hsmall : base ≤ 16) (n : Nat) :
    natOfDigits? base (Nat.toDigits base n) = some n := by
  induction n using Nat.strongRecOn with
  | ind n ih =>
      rw [Nat.toDigits_eq_if hbase]
      split
      · next hlt =>
          rw [← List.nil_append [_], natOfDigits?_concat, digit?_digitChar (by omega)]
          simp [natOfDigits?_nil, hlt]
      · next hge =>
          have front := ih (n / base) (Nat.div_lt_self (by omega) hbase)
          have last : n % base < base := Nat.mod_lt n (by omega)
          rw [natOfDigits?_concat, front, digit?_digitChar (by omega)]
          simp [last, Nat.div_add_mod']

theorem natOfDigits?_zeros (zeros : Nat) {digits : List Char} :
    natOfDigits? base (List.replicate zeros '0' ++ digits) = natOfDigits? base digits := by
  induction zeros with
  | zero => rfl
  | succ zeros ih =>
      rw [← ih]
      unfold natOfDigits?
      have zero : digit? '0' = some 0 := rfl
      have positive : 0 < base := by omega
      simp [List.replicate_succ, zero, positive]

/-- Digits that are read as a number are a numeral of it. -/
theorem isNumeral_of_natOfDigits? {digits : List Char} {n : Nat} (hsome : digits ≠ [])
    (h : natOfDigits? base digits = some n) : IsNumeral base n digits := by
  induction digits using List.reverseRecOn generalizing n with
  | nil => exact absurd rfl hsome
  | append_singleton front c ih =>
      rw [natOfDigits?_concat] at h
      obtain ⟨m, hm, h⟩ := Option.bind_eq_some_iff.mp h
      obtain ⟨d, hd, h⟩ := Option.bind_eq_some_iff.mp h
      split at h
      · next hlt =>
          cases h
          have last : [c.toLower] = Nat.toDigits base d := by
            rw [toLower_of_digit? hd, Nat.toDigits_of_lt_base hlt]
          by_cases hfront : front = []
          · subst hfront
            cases hm
            exact ⟨0, by simpa using last⟩
          · obtain ⟨zeros, hzeros⟩ := ih hfront hm
            rcases Nat.eq_zero_or_pos m with rfl | hpos
            · -- The digits so far are all zeros, so they stand in front of the new one.
              refine ⟨zeros + 1, ?_⟩
              rw [List.map_append, hzeros, List.map_singleton, last, Nat.toDigits_zero]
              simp [List.replicate_succ']
            · refine ⟨zeros, ?_⟩
              rw [List.map_append, hzeros, List.map_singleton, last, List.append_assoc,
                Nat.toDigits_append_toDigits hbase hpos hlt, Nat.mul_comm base m]
      · cases h

theorem natOfDigits?_of_isNumeral (hsmall : base ≤ 16) {digits : List Char} {n : Nat}
    (h : IsNumeral base n digits) : natOfDigits? base digits = some n := by
  obtain ⟨zeros, hzeros⟩ := h
  rw [← natOfDigits?_toLower, hzeros, natOfDigits?_zeros hbase, natOfDigits?_toDigits hbase hsmall]

end

theorem IsNumeral.ne_nil {base n : Nat} {digits : List Char} (h : IsNumeral base n digits) :
    digits ≠ [] := by
  rintro rfl
  obtain ⟨zeros, hzeros⟩ := h
  have nothing : Nat.toDigits base n = [] := (List.append_eq_nil_iff.mp hzeros.symm).2
  exact Nat.toDigits_ne_nil nothing

/-- A digit of a numeral is one of its base. -/
theorem IsNumeral.digit {base n : Nat} (hbase : 1 < base) (hsmall : base ≤ 16) {digits : List Char}
    (h : IsNumeral base n digits) : ∀ c ∈ digits, ∃ d, digit? c = some d ∧ d < base :=
  exists_natOfDigits?_iff.mp ⟨n, natOfDigits?_of_isNumeral hbase hsmall h⟩

end ProtoRoutes.Number
