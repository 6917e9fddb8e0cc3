import Mathlib.Algebra.Order.Field.Rat
import Mathlib.Algebra.Order.Field.Power
import Mathlib.Tactic.NormNum
import Mathlib.Tactic.Positivity
import ProtoRoutes.Proofs.Number.Overflow

/-!
# ProtoRoutes.Proofs.Number.Exactness

What a binary number stands for, and which natural numbers rounding leaves as they are: all below
`2 ^ 53`. From there on a rounded number is still not less than the power of two below it, so it is
none of the small numbers.
-/

namespace ProtoRoutes.Binary64

/-- The rational number that a binary number stands for. -/
def value? : Binary64 → Option ℚ
  | finite negative m e => some ((if negative then -1 else 1) * (m : ℚ) * 2 ^ e)
  | infinite _ => none
  | nan => none

theorem value?_finite (m : Nat) (e : Int) : (finite false m e).value? = some ((m : ℚ) * 2 ^ e) := by
  simp [value?]

theorem roundDiv_one (a : Nat) : roundDiv a 1 = a := by
  simp [roundDiv, Nat.mod_one]

theorem le_roundDiv (a b : Nat) : a / b ≤ roundDiv a b := by
  simp only [roundDiv]
  split <;> omega

/-- A number with its leading bit at most at the end of the mantissa is not rounded. -/
theorem ofNat_of_log2_le {n : Nat} (hn : n ≠ 0) (hlog : n.log2 ≤ 52) :
    ofNat n = finite false (n * pow2 (52 - n.log2)) ((n.log2 : Int) - 52) := by
  have scaled : scale n 1 ((n.log2 : Int) - 52) = (n * pow2 (52 - n.log2), 1) := by
    rcases Nat.lt_or_eq_of_le hlog with h | h
    · have hneg : ¬ (0 : Int) ≤ (n.log2 : Int) - 52 := by omega
      have hexp : (-((n.log2 : Int) - 52)).toNat = 52 - n.log2 := by omega
      simp only [scale, if_neg hneg, hexp]
    · rw [h]
      simp [scale, pow2]
  have below : n * pow2 (52 - n.log2) < pow2 53 := by
    have hlt : n < 2 ^ (n.log2 + 1) := Nat.lt_log2_self
    calc n * pow2 (52 - n.log2) < 2 ^ (n.log2 + 1) * 2 ^ (52 - n.log2) :=
          Nat.mul_lt_mul_of_pos_right hlt (Nat.two_pow_pos _)
      _ = pow2 53 := by
          rw [← Nat.pow_add, show n.log2 + 1 + (52 - n.log2) = 53 by omega]
          rfl
  have hfits : ¬ maxExponent < (n.log2 : Int) - 52 := by
    simp only [maxExponent]
    omega
  simp only [ofNat, ofRatio, if_neg hn, exponentOf_natural hn, scaled, roundDiv_one,
    if_neg (Nat.ne_of_lt below), if_neg hfits]

/-- **Natural numbers below `2 ^ 53` are exact.** -/
theorem value?_ofNat {n : Nat} (hsmall : n < 2 ^ 53) : (ofNat n).value? = some (n : ℚ) := by
  by_cases hn : n = 0
  · subst hn
    simp [ofNat, ofRatio, value?]
  · have hlog : n.log2 ≤ 52 := Nat.le_of_lt_succ ((Nat.log2_lt hn).mpr hsmall)
    have power : ((pow2 (52 - n.log2) : Nat) : ℚ) * 2 ^ ((n.log2 : Int) - 52) = 1 := by
      show ((2 ^ (52 - n.log2) : Nat) : ℚ) * _ = 1
      rw [Nat.cast_pow, Nat.cast_ofNat, ← zpow_natCast, ← zpow_add₀ (by norm_num : (2 : ℚ) ≠ 0),
        show ((52 - n.log2 : Nat) : Int) + ((n.log2 : Int) - 52) = 0 by omega, zpow_zero]
    rw [ofNat_of_log2_le hn hlog, value?_finite, Nat.cast_mul, mul_assoc, power, mul_one]

/-- A great number has a mantissa of 53 bits, and rounding can only raise the exponent. -/
theorem ofNat_of_le_log2 {n : Nat} (hn : n ≠ 0) (hlog : 52 ≤ n.log2) :
    ofNat n = infinite false ∨
      ∃ m e, ofNat n = finite false m e ∧ 2 ^ 52 ≤ m ∧ (n.log2 : Int) - 52 ≤ e := by
  have hexp : (n.log2 : Int) - 52 = ((n.log2 - 52 : Nat) : Int) := by omega
  have mantissa : 2 ^ 52 ≤ roundDiv n (pow2 (n.log2 - 52)) := by
    refine Nat.le_trans ?_ (le_roundDiv _ _)
    refine (Nat.le_div_iff_mul_le (Nat.two_pow_pos _)).mpr ?_
    calc 2 ^ 52 * pow2 (n.log2 - 52) = 2 ^ n.log2 := by
          show 2 ^ 52 * 2 ^ (n.log2 - 52) = _
          rw [← Nat.pow_add, Nat.add_sub_cancel' hlog]
      _ ≤ n := Nat.log2_self_le hn
  simp only [ofNat, ofRatio, if_neg hn, exponentOf_natural hn, hexp, scale_of_nonneg]
  generalize roundDiv n (pow2 (n.log2 - 52)) = m at mantissa
  by_cases hcarry : m = pow2 53
  · simp only [if_pos hcarry]
    split
    · exact .inl rfl
    · exact .inr ⟨_, _, rfl, Nat.le_refl _, by omega⟩
  · simp only [if_neg hcarry]
    split
    · exact .inl rfl
    · exact .inr ⟨_, _, rfl, mantissa, by omega⟩

/-- A number from `2 ^ 53` on stays there. -/
theorem le_of_value?_ofNat {n : Nat} (hlarge : 2 ^ 53 ≤ n) {q : ℚ} (h : (ofNat n).value? = some q) :
    2 ^ 53 ≤ q := by
  have hn : n ≠ 0 := by
    rintro rfl
    simp at hlarge
  have hlog : 53 ≤ n.log2 := (Nat.le_log2 hn).mpr hlarge
  rcases ofNat_of_le_log2 hn (by omega) with hinf | ⟨m, e, hfinite, hm, he⟩
  · rw [hinf] at h
    cases h
  · rw [hfinite, value?_finite] at h
    cases h
    have hm' : (2 : ℚ) ^ 52 ≤ m := by exact_mod_cast hm
    have he' : (2 : ℚ) ^ (1 : Int) ≤ 2 ^ e := zpow_le_zpow_right₀ (by norm_num) (by omega)
    calc (2 : ℚ) ^ 53 = (2 : ℚ) ^ 52 * (2 : ℚ) ^ (1 : Int) := by norm_num
      _ ≤ (m : ℚ) * (2 : ℚ) ^ e := mul_le_mul hm' he' (by positivity) (by positivity)

end ProtoRoutes.Binary64
