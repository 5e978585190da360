import Mathlib.Algebra.Order.Floor.Semifield
import Mathlib.Data.Rat.Floor
import RuleConditions.Number.Whole
import RuleConditions.Proofs.Doubles.Sums

/-!
# Whole numbers among the doubles

The whole part of `m · 2 ^ e` is the greatest whole number that is not above it
(`wholePart_eq_floor`), and there is a fraction exactly if the two differ (`hasFraction_iff`).  A
double with a fraction is less than `2 ^ 52`, so the whole numbers around it are doubles, and a double
is cut to a whole number without rounding (`rational?_toWhole`, `rational?_floor`).
-/

namespace RuleConditions.Number

open Float.Model (UnpackedFloat)
open Float.Model.UnpackedFloat

variable {x : Float} {q : ℚ}

/-! ### The whole part and the fraction -/

theorem mul_zpow_of_nonneg (m : ℕ) {e : ℤ} (he : 0 ≤ e) :
    (m : ℚ) * 2 ^ e = (m <<< e.toNat : ℕ) := by
  have h := shiftLeft_mul_zpow m e.toNat e
  rw [Int.toNat_of_nonneg he, sub_self, zpow_zero, mul_one] at h
  exact h.symm

theorem mul_zpow_of_neg (m : ℕ) {e : ℤ} (he : e < 0) :
    (m : ℚ) * 2 ^ e = m / (2 ^ (-e).toNat : ℕ) := by
  rw [Nat.cast_pow, Nat.cast_ofNat, ← zpow_natCast, Int.toNat_of_nonneg (by omega), zpow_neg,
    div_inv_eq_mul]

theorem wholePart_eq_floor (m : ℕ) (e : ℤ) : wholePart m e = ⌊(m : ℚ) * 2 ^ e⌋₊ := by
  unfold wholePart
  by_cases he : 0 ≤ e
  · rw [if_pos he, mul_zpow_of_nonneg m he, Nat.floor_natCast]
  · rw [if_neg he, mul_zpow_of_neg m (not_le.mp he), Nat.floor_div_eq_div, Nat.shiftRight_eq_div_pow]

theorem hasFraction_iff (m : ℕ) (e : ℤ) :
    hasFraction m e = true ↔ (wholePart m e : ℚ) ≠ m * 2 ^ e := by
  unfold hasFraction wholePart
  by_cases he : 0 ≤ e
  · rw [if_pos he, mul_zpow_of_nonneg m he, decide_eq_false he.not_gt]
    exact iff_of_false Bool.false_ne_true fun h => h rfl
  · have he := not_le.mp he
    have hpos : (0 : ℚ) < (2 ^ (-e).toNat : ℕ) := by positivity
    rw [if_neg he.not_ge, mul_zpow_of_neg m he, decide_eq_true he, Bool.true_and, bne_iff_ne,
      Nat.shiftRight_eq_div_pow, ne_eq, ne_eq, eq_div_iff hpos.ne', ← Nat.cast_mul, Nat.cast_inj,
      ← Nat.dvd_iff_div_mul_eq, Nat.dvd_iff_mod_eq_zero]
    rfl

theorem hasFraction_eq_false_iff (m : ℕ) (e : ℤ) :
    hasFraction m e = false ↔ (wholePart m e : ℚ) = m * 2 ^ e := by
  rw [← Bool.not_eq_true, hasFraction_iff, not_not]

theorem wholePart_le (m : ℕ) (e : ℤ) : (wholePart m e : ℚ) ≤ m * 2 ^ e := by
  rw [wholePart_eq_floor]
  exact Nat.floor_le (by positivity)

theorem lt_wholePart_add_one (m : ℕ) (e : ℤ) : (m : ℚ) * 2 ^ e < wholePart m e + 1 := by
  rw [wholePart_eq_floor]
  exact Nat.lt_floor_add_one _

theorem ne_of_hasFraction {m : ℕ} {e : ℤ} (h : hasFraction m e = true) (n : ℤ) :
    (n : ℚ) ≠ m * 2 ^ e := by
  intro hn
  have hlow := wholePart_le m e
  have hhigh := lt_wholePart_add_one m e
  rw [← hn] at hlow hhigh
  have hlow : (wholePart m e : ℤ) ≤ n := by exact_mod_cast hlow
  have hhigh : n < (wholePart m e : ℤ) + 1 := by exact_mod_cast hhigh
  apply (hasFraction_iff m e).mp h
  rw [← hn, show n = (wholePart m e : ℤ) by omega, Int.cast_natCast]

/-- What has a fraction has no more than 52 bits before the point. -/
theorem IsRepresentable.abs_lt_of_not_whole (h : IsRepresentable q) (hq : ∀ n : ℤ, (n : ℚ) ≠ q) :
    |q| < 2 ^ 52 := by
  obtain ⟨k, e, hk, -, -, rfl⟩ := h
  have hk : |(k : ℚ)| < 2 ^ 53 := by exact_mod_cast hk
  have he : e ≤ -1 := by
    by_contra! he
    exact hq _ (intCast_mul_zpow k (by omega)).symm
  calc |(k : ℚ) * 2 ^ e| = |(k : ℚ)| * 2 ^ e := by rw [abs_mul, abs_of_pos (two_zpow_pos e)]
    _ < 2 ^ 53 * 2 ^ e := by gcongr
    _ ≤ 2 ^ 53 * 2 ^ (-1 : ℤ) := by
      gcongr
      norm_num
    _ = 2 ^ 52 := by norm_num

/-! ### Cutting -/

theorem isNearest_ofBinary (s : Sign) (m : ℕ) (e : ℤ) :
    IsNearest (signed s (m * 2 ^ e)) (ofBinary s m e) :=
  isNearest_round s m e

theorem rational?_ofBinary_zero (s : Sign) {n : ℕ} (h : IsRepresentable n) :
    rational? (ofBinary s n 0) = some (signed s n) := by
  have hnearest := isNearest_ofBinary s n 0
  rw [zpow_zero, mul_one] at hnearest
  exact hnearest.rational?_eq (h.signed s)

/-- **A double is cut to a whole number without rounding.** -/
theorem rational?_toWhole (away : Sign → Bool) {s : Sign} {m : ℕ} {e : ℤ} {hm : 0 < m}
    (hx : parts x = .finite s m e hm) :
    rational? (toWhole away x) =
      some (signed s (wholePart m e + if hasFraction m e && away s then 1 else 0 : ℕ)) := by
  have hself : IsRepresentable (m * 2 ^ e) := by
    obtain ⟨hcanonical, he⟩ := isCanonical_of_parts hx
    have hm : (m : ℤ) < 2 ^ 53 := by exact_mod_cast hcanonical.lt
    exact ⟨m, e, by rwa [abs_of_nonneg (by omega)], hcanonical.least_le, he, rfl⟩
  unfold toWhole
  rw [hx]
  apply rational?_ofBinary_zero
  cases hfraction : hasFraction m e with
  | false =>
    rw [hasFraction_eq_false_iff] at hfraction
    rw [Bool.false_and, if_neg Bool.false_ne_true, Nat.add_zero, hfraction]
    exact hself
  | true =>
    have hlt := (abs_lt.mp (hself.abs_lt_of_not_whole (ne_of_hasFraction hfraction))).2
    have hwhole : wholePart m e < 2 ^ 52 := by exact_mod_cast (wholePart_le m e).trans_lt hlt
    have hstep : (if true && away s then 1 else 0) ≤ 1 := by split <;> omega
    apply isRepresentable_natCast
    omega

theorem floor_eq_self (hx : ∀ s m e hm, parts x ≠ .finite s m e hm) : floor x = x := by
  unfold floor toWhole
  cases h : parts x with
  | finite s m e hm => exact absurd h (hx s m e hm)
  | _ => rfl

/-- **The floor of a double** stands for the greatest whole number that is not above it. -/
theorem rational?_floor (h : rational? x = some q) : rational? (floor x) = some (⌊q⌋ : ℚ) := by
  obtain ⟨s, hx, rfl⟩ | ⟨s, m, e, hm, hx, rfl⟩ := parts_of_rational? h
  · rw [floor_eq_self (by rw [hx]; nofun), h, Int.floor_zero, Int.cast_zero]
  have hlow := wholePart_le m e
  have hhigh := lt_wholePart_add_one m e
  unfold floor
  rw [rational?_toWhole _ hx]
  congr 1
  cases s with
  | positive =>
    have hfloor : ⌊(m : ℚ) * 2 ^ e⌋ = (wholePart m e : ℤ) := Int.floor_eq_iff.mpr ⟨hlow, hhigh⟩
    rw [Bool.and_false, if_neg Bool.false_ne_true, Nat.add_zero, signed, signed, hfloor,
      Int.cast_natCast]
  | negative => cases hfraction : hasFraction m e with
    | false =>
      rw [hasFraction_eq_false_iff] at hfraction
      rw [Bool.false_and, if_neg Bool.false_ne_true, Nat.add_zero, signed, signed, ← hfraction,
        ← Int.cast_natCast, ← Int.cast_neg, Int.floor_intCast]
    | true =>
      have hlt := hlow.lt_of_ne ((hasFraction_iff m e).mp hfraction)
      have hfloor : ⌊-((m : ℚ) * 2 ^ e)⌋ = -((wholePart m e + 1 : ℕ) : ℤ) := by
        rw [Int.floor_eq_iff]
        push_cast
        constructor <;> linarith
      rw [Bool.true_and, if_pos rfl, signed, signed, hfloor, Int.cast_neg, Int.cast_natCast]

end RuleConditions.Number
