import Mathlib.Algebra.Group.Nat.Defs
import ProtoRoutes.Number.Binary64

/-!
# ProtoRoutes.Proofs.Number.Overflow

From which natural number on rounding gives no finite number. The mantissa of a number with leading
bit `L` is its quotient by `2 ^ (L - 52)`, so only the numbers from `2 ^ 1023` to `2 ^ 1024` have to
be looked at: there a half of the last unit is `2 ^ 970`, and the greatest mantissa is odd, so half
a unit rounds up.
-/

namespace ProtoRoutes.Binary64

/-! ### Rounding a quotient -/

theorem roundDiv_le (a b : Nat) : roundDiv a b ≤ a / b + 1 := by
  unfold roundDiv
  simp only
  split <;> omega

/-- A quotient with an odd number below it rounds up from one half on. -/
theorem roundDiv_eq_succ_iff {a half q : Nat} (hodd : q % 2 = 1) (hhalf : 0 < half)
    (hlt : a < (q + 1) * (2 * half)) : roundDiv a (2 * half) = q + 1 ↔
      q * (2 * half) + half ≤ a := by
  have hb : 0 < 2 * half := by omega
  have hq : a / (2 * half) ≤ q := Nat.le_of_lt_succ ((Nat.div_lt_iff_lt_mul hb).mpr hlt)
  have split := Nat.div_add_mod a (2 * half)
  rcases Nat.lt_or_eq_of_le hq with hbelow | hat
  · -- A smaller quotient does not reach the greater number.
    have upper : a < q * (2 * half) := (Nat.div_lt_iff_lt_mul hb).mp hbelow
    have round := roundDiv_le a (2 * half)
    constructor
    · intro h
      omega
    · intro h
      omega
  · rw [hat, Nat.mul_comm] at split
    unfold roundDiv
    simp only [hat, hodd]
    constructor
    · intro h
      split at h
      · next hup =>
          simp only [Bool.or_eq_true, Bool.and_eq_true, decide_eq_true_eq, and_true] at hup
          omega
      · omega
    · intro h
      rw [if_pos]
      simp only [Bool.or_eq_true, Bool.and_eq_true, decide_eq_true_eq, and_true]
      omega

/-! ### The exponent of a natural number -/

theorem pow2_succ (k : Nat) : pow2 (k + 1) = 2 * 2 ^ k := by
  show 2 ^ (k + 1) = _
  rw [Nat.pow_succ, Nat.mul_comm]

theorem scale_of_nonneg (n k : Nat) : scale n 1 k = (n, pow2 k) := by
  simp [scale]

/-- The exponent puts the leading bit of a number at the end of the mantissa. -/
theorem exponentOf_natural {n : Nat} (hn : n ≠ 0) : exponentOf n 1 = (n.log2 : Int) - 52 := by
  have low : 2 ^ n.log2 ≤ n := Nat.log2_self_le hn
  have wide :
      pow2 53 ≤ (scale n 1 ((n.log2 : Int) - 53)).1 / (scale n 1 ((n.log2 : Int) - 53)).2 := by
    rcases Nat.lt_or_ge n.log2 53 with hsmall | hlarge
    · have hneg : ¬ (0 : Int) ≤ (n.log2 : Int) - 53 := by omega
      have hexp : (-((n.log2 : Int) - 53)).toNat = 53 - n.log2 := by omega
      simp only [scale, if_neg hneg, hexp, Nat.div_one]
      calc pow2 53 = 2 ^ n.log2 * 2 ^ (53 - n.log2) := by
            rw [← Nat.pow_add, Nat.add_sub_cancel' (Nat.le_of_lt hsmall)]
            rfl
        _ ≤ n * 2 ^ (53 - n.log2) := Nat.mul_le_mul_right _ low
    · have hpos : (0 : Int) ≤ (n.log2 : Int) - 53 := by omega
      have hexp : ((n.log2 : Int) - 53).toNat = n.log2 - 53 := by omega
      simp only [scale, if_pos hpos, hexp, Nat.one_mul]
      refine (Nat.le_div_iff_mul_le (Nat.pow_pos (by decide))).mpr ?_
      calc pow2 53 * pow2 (n.log2 - 53) = 2 ^ n.log2 := by
            show 2 ^ 53 * 2 ^ (n.log2 - 53) = _
            rw [← Nat.pow_add, Nat.add_sub_cancel' hlarge]
        _ ≤ n := low
  have hguess : (n.log2 : Int) - (Nat.log2 1 : Nat) - 53 = (n.log2 : Int) - 53 := by
    rw [show Nat.log2 1 = 0 by decide]
    rfl
  simp only [exponentOf, hguess, if_pos wide, minExponent]
  omega

/-- Rounding a natural number overflows by its exponent, or by a mantissa that rounds up to the next
power of two. -/
theorem ofNat_infinite_cases {n : Nat} (hn : n ≠ 0) {negative : Bool} :
    ofNat n = infinite negative ↔ negative = false ∧
      (1024 ≤ n.log2 ∨ n.log2 = 1023 ∧ roundDiv n (pow2 971) = pow2 53) := by
  unfold ofNat ofRatio
  simp only [if_neg hn, exponentOf_natural hn, maxExponent]
  have scaled : n.log2 = 1023 →
      scale n 1 ((n.log2 : Int) - 52) = (n, pow2 971) := by
    intro hlog
    rw [hlog]
    exact scale_of_nonneg n 971
  generalize hround :
    roundDiv (scale n 1 ((n.log2 : Int) - 52)).1 (scale n 1 ((n.log2 : Int) - 52)).2 = m
  have same : n.log2 = 1023 → roundDiv n (pow2 971) = m := by
    intro hlog
    rw [← hround, scaled hlog]
  by_cases hcarry : m = pow2 53
  · simp only [if_pos hcarry]
    split
    · next hover =>
        rw [infinite.injEq]
        have reached : 1024 ≤ n.log2 ∨ n.log2 = 1023 ∧ roundDiv n (pow2 971) = pow2 53 := by
          rcases Nat.lt_or_ge n.log2 1024 with hlog | hlog
          · have hlog : n.log2 = 1023 := by omega
            exact .inr ⟨hlog, (same hlog).trans hcarry⟩
          · exact .inl hlog
        exact ⟨fun h => ⟨h.symm, reached⟩, fun h => h.1.symm⟩
    · next hfits =>
        refine ⟨(nomatch ·), fun h => ?_⟩
        rcases h.2 with hlog | ⟨hlog, -⟩
        · omega
        · omega
  · simp only [if_neg hcarry]
    split
    · next hover =>
        rw [infinite.injEq]
        have reached : 1024 ≤ n.log2 := by omega
        exact ⟨fun h => ⟨h.symm, .inl reached⟩, fun h => h.1.symm⟩
    · next hfits =>
        refine ⟨(nomatch ·), fun h => ?_⟩
        rcases h.2 with hlog | ⟨hlog, hround'⟩
        · omega
        · exact absurd ((same hlog).symm.trans hround') hcarry

/-- **A natural number overflows from `2 ^ 1024 - 2 ^ 970` on.** -/
theorem ofNat_eq_infinite_iff {n : Nat} {negative : Bool} :
    ofNat n = infinite negative ↔ negative = false ∧ 2 ^ 1024 - 2 ^ 970 ≤ n := by
  -- All powers in terms of half a unit, so that no great number is computed.
  have power : ∀ m k, m = k + 970 → 2 ^ m = 2 ^ k * 2 ^ 970 := by
    rintro m k rfl
    rw [pow_add]
  have unit : pow2 971 = 2 * 2 ^ 970 := pow2_succ 970
  have limit : 2 ^ 1024 = 2 ^ 54 * 2 ^ 970 := power 1024 54 rfl
  have positive : ∀ k, 0 < 2 ^ k := Nat.two_pow_pos
  have hpos := positive 970
  rw [limit]
  by_cases hn : n = 0
  · subst hn
    generalize 2 ^ 970 = half at hpos
    refine ⟨(nomatch ·), fun h => ?_⟩
    omega
  · rw [ofNat_infinite_cases hn, unit]
    refine and_congr_right fun _ => ?_
    have below : ∀ k, n.log2 < k → n < 2 ^ k := fun k => (Nat.log2_lt hn).mp
    have above : ∀ k, k ≤ n.log2 → 2 ^ k ≤ n := fun k => (Nat.le_log2 hn).mp
    rcases Nat.lt_trichotomy n.log2 1023 with hlog | hlog | hlog
    · have hlt := below 1023 hlog
      rw [power 1023 53 rfl] at hlt
      generalize 2 ^ 970 = half at hpos hlt
      constructor
      · rintro (h | ⟨h, -⟩) <;> omega
      · intro h
        omega
    · have hlt := below 1024 (by omega)
      rw [limit] at hlt
      generalize 2 ^ 970 = half at hpos hlt
      have round := @roundDiv_eq_succ_iff n half (2 ^ 53 - 1) (by decide) hpos (by omega)
      have carry : pow2 53 = 2 ^ 53 - 1 + 1 := by decide
      rw [carry, round]
      constructor
      · rintro (h | ⟨-, h⟩) <;> omega
      · intro h
        exact .inr ⟨hlog, by omega⟩
    · have hge := above 1024 hlog
      rw [limit] at hge
      generalize 2 ^ 970 = half at hge
      exact ⟨fun _ => by omega, fun _ => .inl hlog⟩

end ProtoRoutes.Binary64
