import ProtoRoutes.Text.Case

/-!
# ProtoRoutes.Proofs.Text.Ascii

ASCII characters. There are few of them, so that what is true of all can be tried out, and case is
simple: a capital has one small letter, and nothing else changes.
-/

namespace ProtoRoutes.Text

theorem forall_ascii {P : Char → Prop} (h : ∀ n : Fin 128, P (Char.ofNat n)) {c : Char}
    (hc : c.toNat < 128) :
    P c := by
  have tried := h ⟨c.toNat, hc⟩
  rwa [Char.ofNat_toNat] at tried

theorem ascii_of_isUpper {c : Char} (h : c.isUpper = true) : c.toNat < 128 := by
  have high : c.toNat ≤ 90 := UInt32.le_iff_toNat_le.mp (of_decide_eq_true h).2
  omega

/-- No capital is a small letter or a digit. -/
theorem not_small_of_isUpper {c : Char} (h : c.isUpper = true) :
    (c.isLower || c.isDigit) = false := by
  have hascii := ascii_of_isUpper h
  revert h
  refine forall_ascii (P := fun c => c.isUpper = true → (c.isLower || c.isDigit) = false) ?_ hascii
  decide

theorem toLower_of_not_isUpper {c : Char} (h : c.isUpper = false) : c.toLower = c :=
  dif_neg (of_decide_eq_false h)

theorem toLower_ascii {c : Char} (h : c.toNat < 128) :
    c.toLower.toNat < 128 ∧ c.toLower.isUpper = false ∧
      (c.toLower = '_' → c = '_') ∧ (c.toLower = '-' → c = '-') ∧ (c.toLower = '.' → c = '.') := by
  refine forall_ascii (P := fun c => c.toLower.toNat < 128 ∧ c.toLower.isUpper = false ∧
    (c.toLower = '_' → c = '_') ∧ (c.toLower = '-' → c = '-') ∧ (c.toLower = '.' → c = '.')) ?_ h
  decide +kernel

theorem lowerFrom_ascii {cs : List Char} (h : ∀ c ∈ cs, c.toNat < 128) (before : List Char) :
    lowerFrom before cs = cs.map Char.toLower := by
  induction cs generalizing before with
  | nil => rfl
  | cons c cs ih =>
      obtain ⟨hc, hcs⟩ := List.forall_mem_cons.mp h
      rw [lowerFrom, lowerChar, if_pos hc, ih hcs, List.map_cons, List.singleton_append]

end ProtoRoutes.Text
