import RuleConditions.Number.Numeral
import RuleConditions.Proofs.Doubles.Nearest

/-!
# Decimals

`ofDecimal c e` is the double nearest to `c · 10 ^ e`, whatever the coefficient and the exponent
(`isNearest_ofDecimal`).  An exponent far out of range is not raised to a power at all: beyond 2048 the
decimal is beyond all doubles, and below the opposite of that it is less than half of the least one.
-/

namespace RuleConditions.Number

open Float.Model (UnpackedFloat Format)
open Float.Model.UnpackedFloat

theorem ten_zpow_pos (e : ℤ) : (0 : ℚ) < 10 ^ e := by positivity

theorem decimal_ge {c : ℕ} {e : ℤ} (hc : c ≠ 0) (he : 2048 < e) :
    infinityPlace ≤ c * (10 : ℚ) ^ e := by
  have hc : (1 : ℚ) ≤ c := by exact_mod_cast Nat.one_le_iff_ne_zero.mpr hc
  calc infinityPlace = 2 ^ (1024 : ℤ) := (zpow_natCast (2 : ℚ) 1024).symm
    _ ≤ 2 ^ e := zpow_le_zpow_right₀ (by norm_num) (by omega)
    _ ≤ 10 ^ e := zpow_le_zpow_left₀ (by omega) (by norm_num) (by norm_num)
    _ ≤ c * 10 ^ e := le_mul_of_one_le_left (ten_zpow_pos e).le hc

theorem decimal_le {c : ℕ} {e : ℤ} (he : e < -(2048 + c.log2)) :
    c * (10 : ℚ) ^ e ≤ 2 ^ (-1075 : ℤ) := by
  have hc : (c : ℚ) ≤ 2 ^ (c.log2 + 1) := by exact_mod_cast Nat.lt_log2_self.le
  calc c * (10 : ℚ) ^ e ≤ 2 ^ (c.log2 + 1) * 2 ^ e := by
        gcongr
        rw [← neg_neg e, zpow_neg, zpow_neg 2]
        apply inv_anti₀ (two_zpow_pos _)
        exact zpow_le_zpow_left₀ (by omega) (by norm_num) (by norm_num)
    _ = 2 ^ (((c.log2 + 1 : ℕ) : ℤ) + e) := two_pow_mul_zpow _ _
    _ ≤ 2 ^ (-1075 : ℤ) := zpow_le_zpow_right₀ (by norm_num) (by omega)

/-- The coefficient is given 53 bits more, so that a product of few digits has enough of them. -/
theorem isRounded_shift_mul {c n : ℕ} (hc : 0 < c) (hn : 0 < n) (hshift : 0 < c <<< 53) :
    IsRounded .positive (c * n) (mul .binary64 (.finite .positive (c <<< 53) (-53) hshift)
      (.finite .positive n 0 hn)) := by
  have hbits : 2 ^ 53 ≤ c <<< 53 * n := by
    rw [Nat.shiftLeft_eq]
    exact Nat.le_mul_of_pos_left _ hc |>.trans (Nat.le_mul_of_pos_right _ hn)
  have hlog : 53 ≤ (c <<< 53 * n).log2 := by
    rw [Nat.le_log2 (by omega)]
    exact hbits
  have hvalue : (c : ℚ) * n = (c <<< 53 : ℕ) * 2 ^ (-53 : ℤ) * (n * 2 ^ (0 : ℤ)) := by
    rw [Nat.shiftLeft_eq, Nat.cast_mul, Nat.cast_pow, Nat.cast_ofNat, mul_assoc (c : ℚ),
      two_pow_mul_zpow]
    norm_num
  rw [hvalue]
  apply isRounded_mul .positive .positive
  rw [roundedExponent]
  omega

/-- A decimal is rounded, unless its exponent is so great that it lies beyond all doubles. -/
theorem isRounded_ofScientific (c : ℕ) (e : ℤ) :
    IsRounded .positive (c * 10 ^ e) (ofScientific .binary64 c e) ∨
      infinityPlace ≤ c * (10 : ℚ) ^ e ∧ ofScientific .binary64 c e = .infinity .positive := by
  unfold ofScientific
  by_cases hc : c = 0
  · subst hc
    rw [dif_pos rfl]
    left
    apply isRounded_zero <;> simp
  rw [dif_neg hc]
  by_cases hhigh : e > 2 ^ Format.binary64.exponentBits
  · rw [if_pos hhigh]
    exact .inr ⟨decimal_ge hc hhigh, rfl⟩
  rw [if_neg hhigh]
  left
  by_cases hlow : e < -(2 ^ Format.binary64.exponentBits + (c.log2 : ℤ))
  · rw [if_pos hlow]
    exact isRounded_zero (by positivity) (decimal_le hlow) _
  rw [if_neg hlow]
  by_cases he : 0 ≤ e
  · rw [if_pos he]
    have hpower : (10 : ℚ) ^ e = (10 ^ e.toNat : ℕ) := by
      rw [Nat.cast_pow, Nat.cast_ofNat, ← zpow_natCast, Int.toNat_of_nonneg he]
    rw [hpower]
    exact isRounded_shift_mul (Nat.pos_of_ne_zero hc) _ _
  · rw [if_neg he]
    have hpower : (10 : ℚ) ^ e = ((10 ^ (-e).toNat : ℕ) : ℚ)⁻¹ := by
      rw [Nat.cast_pow, Nat.cast_ofNat, ← zpow_natCast, Int.toNat_of_nonneg (by omega), zpow_neg,
        inv_inv]
    have hvalue : (c : ℚ) * 10 ^ e = c * 2 ^ (0 : ℤ) / ((10 ^ (-e).toNat : ℕ) * 2 ^ (0 : ℤ)) := by
      rw [hpower, zpow_zero, mul_one, mul_one, div_eq_mul_inv]
    rw [hvalue]
    exact isRounded_div .positive .positive _ _

theorem ofDecimal_eq (c : ℕ) (e : ℤ) : ofDecimal c e = ofParts (ofScientific .binary64 c e) := rfl

theorem isNearest_ofDecimal (c : ℕ) (e : ℤ) : IsNearest (c * 10 ^ e) (ofDecimal c e) := by
  rw [ofDecimal_eq]
  obtain h | ⟨hge, hinfinity⟩ := isRounded_ofScientific c e
  · exact h.isNearest (by positivity)
  · rw [hinfinity]
    exact isNearest_infinity hge .positive

theorem sign?_ofDecimal (c : ℕ) (e : ℤ) : sign? (ofDecimal c e) = some .positive := by
  rw [ofDecimal_eq]
  obtain ⟨n, t, -, hvalue⟩ | ⟨-, hinfinity⟩ := isRounded_ofScientific c e
  · exact hvalue.sign?
  · rw [hinfinity]
    rfl

end RuleConditions.Number
