import Mathlib.Algebra.Order.Field.Power
import Mathlib.Algebra.Order.Field.Rat
import Mathlib.Data.Option.NAry
import Mathlib.Order.Compare
import Mathlib.Order.WithBot
import Mathlib.Tactic.Linarith
import Mathlib.Tactic.NormNum
import Mathlib.Tactic.Positivity
import Mathlib.Tactic.Ring
import RuleConditions.Proofs.Doubles.Parts

/-!
# The line on which doubles stand

`value? x` is the point that a double stands for on the line of the rational numbers between two
infinities: a finite one stands at its number, both zeros at zero, and NaN nowhere.  The comparisons
of doubles are those of these points (`lt_iff`, `beq_iff`), which is where they get their laws from.

The comparison itself (`compare_parts`) looks at exponents before it looks at coefficients.  That is
right since of two finite doubles with different exponents the one with the greater exponent has the
full number of bits (`IsCanonical.lt_of_exponent_lt`).
-/

namespace RuleConditions.Number

open Float.Model (UnpackedFloat)
open Float.Model.UnpackedFloat

/-! ### Signs and magnitudes -/

theorem two_zpow_pos (e : ℤ) : (0 : ℚ) < 2 ^ e := by positivity

theorem magnitude_pos {m : ℕ} (h : 0 < m) (e : ℤ) : (0 : ℚ) < m * 2 ^ e := by positivity

/-- A magnitude with a sign. -/
def signed : Sign → ℚ → ℚ
  | .positive, a => a
  | .negative, a => -a

theorem apply_mul_eq_signed (s : Sign) (m : ℕ) (e : ℤ) :
    ((s.apply m : ℤ) : ℚ) * 2 ^ e = signed s (m * 2 ^ e) := by
  cases s with
  | positive => rfl
  | negative =>
    show ((-(m : ℤ) : ℤ) : ℚ) * 2 ^ e = -(m * 2 ^ e)
    push_cast
    ring

/-! ### Points -/

/-- The rational numbers between two infinities. -/
abbrev Line := WithBot (WithTop ℚ)

/-- A rational number as a point of the line. -/
def point (q : ℚ) : Line := ((q : WithTop ℚ) : Line)

theorem cmp_point (p q : ℚ) : cmp (point p) (point q) = cmp p q := by
  unfold point
  obtain h | rfl | h := lt_trichotomy p q
  · rw [(cmp_eq_lt_iff _ _).mpr h, cmp_eq_lt_iff]
    exact_mod_cast h
  · rw [cmp_self_eq_eq, cmp_self_eq_eq]
  · rw [(cmp_eq_gt_iff _ _).mpr h, cmp_eq_gt_iff]
    exact_mod_cast h

/-- The point that a double stands for.  NaN stands for none. -/
def value? (x : Float) : Option Line :=
  match parts x with
  | .infinity .negative => some ⊥
  | .infinity .positive => some ⊤
  | .notANumber => none
  | .zero _ => some (point 0)
  | .finite s m e _ => some (point (signed s (m * 2 ^ e)))

/-- The parts of a finite double, from its number. -/
theorem parts_of_rational? {x : Float} {q : ℚ} (h : rational? x = some q) :
    (∃ s, parts x = .zero s ∧ q = 0) ∨
      ∃ s m e hm, parts x = .finite s m e hm ∧ q = signed s (m * 2 ^ e) := by
  unfold rational? at h
  cases hx : parts x with
  | notANumber =>
    rw [hx] at h
    cases h
  | infinity s =>
    rw [hx] at h
    cases h
  | zero s =>
    rw [hx] at h
    exact .inl ⟨s, rfl, (Option.some.inj h).symm⟩
  | finite s m e hm =>
    rw [hx] at h
    rw [← Option.some.inj h, apply_mul_eq_signed]
    exact .inr ⟨s, m, e, hm, rfl, rfl⟩

theorem parts_of_rational?_eq_none {x : Float} (h : rational? x = none) :
    (∃ s, parts x = .infinity s) ∨ parts x = .notANumber := by
  unfold rational? at h
  cases hx : parts x with
  | notANumber => exact .inr rfl
  | infinity s => exact .inl ⟨s, rfl⟩
  | zero s =>
    rw [hx] at h
    cases h
  | finite s m e hm =>
    rw [hx] at h
    cases h

/-! ### Comparison -/

/-- Fewer than 54 bits do not reach the least full coefficient with a greater exponent. -/
theorem mul_zpow_lt_of_lt {m : ℕ} {e t : ℤ} (hm : m < 2 ^ 53) (he : e < t) :
    (m : ℚ) * 2 ^ e < 2 ^ 52 * 2 ^ t := by
  have hm : (m : ℚ) < 2 ^ 53 := by exact_mod_cast hm
  calc (m : ℚ) * 2 ^ e < 2 ^ 53 * 2 ^ e := by gcongr
    _ = 2 ^ 52 * 2 ^ (e + 1) := by
      rw [zpow_add_one₀ (by norm_num)]
      ring
    _ ≤ 2 ^ 52 * 2 ^ t := by gcongr <;> first | omega | norm_num

theorem IsCanonical.lt_of_exponent_lt {m m' : ℕ} {e e' : ℤ} (h : IsCanonical m e)
    (h' : IsCanonical m' e') (he : e < e') : (m : ℚ) * 2 ^ e < m' * 2 ^ e' := by
  have hm' : (2 : ℚ) ^ 52 ≤ m' := by
    have hleast := h.least_le
    exact_mod_cast h'.full.resolve_right (by omega)
  calc (m : ℚ) * 2 ^ e < 2 ^ 52 * 2 ^ e' := mul_zpow_lt_of_lt h.lt he
    _ ≤ m' * 2 ^ e' := by gcongr

theorem IsCanonical.cmp_magnitudes {m m' : ℕ} {e e' : ℤ} (h : IsCanonical m e)
    (h' : IsCanonical m' e') :
    cmp ((m : ℚ) * 2 ^ e) (m' * 2 ^ e') = (compare e e').then (compare m m') := by
  obtain he | rfl | he := lt_trichotomy e e'
  · rw [Int.compare_eq_lt.mpr he]
    exact (cmp_eq_lt_iff ..).mpr (h.lt_of_exponent_lt h' he)
  -- with one exponent the coefficients decide, whatever their number of bits
  · rw [Int.compare_eq_eq.mpr rfl, cmp_mul_pos_right (two_zpow_pos e)]
    show cmp _ _ = compare m m'
    obtain hm | rfl | hm := lt_trichotomy m m'
    · rw [Nat.compare_eq_lt.mpr hm, cmp_eq_lt_iff]
      exact_mod_cast hm
    · rw [Nat.compare_eq_eq.mpr rfl, cmp_self_eq_eq]
    · rw [Nat.compare_eq_gt.mpr hm, cmp_eq_gt_iff]
      exact_mod_cast hm
  · rw [Int.compare_eq_gt.mpr he]
    exact (cmp_eq_gt_iff ..).mpr (h'.lt_of_exponent_lt h he)

theorem cmp_neg_neg (p q : ℚ) : cmp (-p) (-q) = (cmp p q).swap := by
  rw [cmp_swap]
  obtain h | rfl | h := lt_trichotomy p q
  · rw [(cmp_eq_gt_iff q p).mpr h, cmp_eq_gt_iff]
    exact neg_lt_neg h
  · rw [cmp_self_eq_eq, cmp_self_eq_eq]
  · rw [(cmp_eq_lt_iff q p).mpr h, cmp_eq_lt_iff]
    exact neg_lt_neg h

theorem compare_zero_finite (s s' : Sign) {m : ℕ} {e : ℤ} (hm : 0 < m) :
    (UnpackedFloat.zero s).compare (.finite s' m e hm) = some (cmp 0 (signed s' (m * 2 ^ e))) := by
  have hpos := magnitude_pos hm e
  cases s' with
  | positive =>
    rw [signed, (cmp_eq_lt_iff _ _).mpr hpos]
    rfl
  | negative =>
    rw [signed, (cmp_eq_gt_iff _ _).mpr (neg_lt_zero.mpr hpos)]
    rfl

theorem compare_finite_zero (s s' : Sign) {m : ℕ} {e : ℤ} (hm : 0 < m) :
    (UnpackedFloat.finite s m e hm).compare (.zero s') = some (cmp (signed s (m * 2 ^ e)) 0) := by
  have hpos := magnitude_pos hm e
  cases s with
  | positive =>
    rw [signed, (cmp_eq_gt_iff _ _).mpr hpos]
    rfl
  | negative =>
    rw [signed, (cmp_eq_lt_iff _ _).mpr (neg_lt_zero.mpr hpos)]
    rfl

theorem compare_finite (s s' : Sign) {m m' : ℕ} {e e' : ℤ} (hm : 0 < m) (hm' : 0 < m')
    (h : IsCanonical m e) (h' : IsCanonical m' e') :
    (UnpackedFloat.finite s m e hm).compare (.finite s' m' e' hm') =
      some (cmp (signed s (m * 2 ^ e)) (signed s' (m' * 2 ^ e'))) := by
  have hpos := magnitude_pos hm e
  have hpos' := magnitude_pos hm' e'
  have hcmp := h.cmp_magnitudes h'
  cases s <;> cases s' <;> unfold signed
  · rw [cmp_neg_neg, hcmp]
    rfl
  · rw [(cmp_eq_lt_iff _ _).mpr (by linarith)]
    rfl
  · rw [(cmp_eq_gt_iff _ _).mpr (by linarith)]
    rfl
  · rw [hcmp]
    rfl

/-- Doubles compare as their points do. -/
theorem compare_parts (x y : Float) :
    (parts x).compare (parts y) = Option.map₂ cmp (value? x) (value? y) := by
  unfold value?
  cases hx : parts x with
  | notANumber => rfl
  | infinity s => cases s <;> cases parts y with
    | notANumber => rfl
    | infinity s' => cases s' <;> rfl
    | zero s' => rfl
    | finite s' m' e' hm' => rfl
  | zero s => cases parts y with
    | notANumber => rfl
    | infinity s' => cases s' <;> rfl
    | zero s' => exact congrArg some (cmp_self_eq_eq _).symm
    | finite s' m' e' hm' =>
      rw [compare_zero_finite s s' hm', ← cmp_point]
      rfl
  | finite s m e hm => cases hy : parts y with
    | notANumber => rfl
    | infinity s' => cases s' <;> rfl
    | zero s' =>
      rw [compare_finite_zero s s' hm, ← cmp_point]
      rfl
    | finite s' m' e' hm' =>
      rw [compare_finite s s' hm hm' (isCanonical_of_parts hx).1 (isCanonical_of_parts hy).1,
        ← cmp_point]
      rfl

theorem lt_iff (x y : Float) : x < y ↔ Option.map₂ cmp (value? x) (value? y) = some .lt := by
  rw [← compare_parts]
  show decide (x.toModel < y.toModel) = true ↔ _
  rw [decide_eq_true_iff]
  show ((parts x).compare (parts y) == some .lt) = true ↔ _
  exact beq_iff_eq

theorem beq_iff (x y : Float) :
    (x == y) = true ↔ Option.map₂ cmp (value? x) (value? y) = some .eq := by
  rw [← compare_parts]
  show ((parts x).compare (parts y) == some .eq) = true ↔ _
  exact beq_iff_eq

theorem isNaN_iff (x : Float) : x.isNaN = true ↔ value? x = none := by
  unfold value?
  show (parts x).isNaN = true ↔ _
  cases parts x with
  | notANumber => exact iff_of_true rfl rfl
  | infinity s => cases s <;> exact iff_of_false Bool.false_ne_true nofun
  | zero s => exact iff_of_false Bool.false_ne_true nofun
  | finite s m e h => exact iff_of_false Bool.false_ne_true nofun

theorem map₂_cmp_swap (p q : Option Line) :
    Option.map₂ cmp q p = (Option.map₂ cmp p q).map Ordering.swap := by
  cases p with
  | none => cases q <;> rfl
  | some p => cases q with
    | none => rfl
    | some q => exact congrArg some (cmp_swap p q).symm

/-! ### Equality -/

/-- Equal doubles stand at the same point. -/
theorem beq_iff_exists (x y : Float) :
    (x == y) = true ↔ ∃ p, value? x = some p ∧ value? y = some p := by
  rw [beq_iff, Option.map₂_eq_some_iff]
  constructor
  · rintro ⟨p, q, hp, hq, hcmp⟩
    obtain rfl := (cmp_eq_eq_iff p q).mp hcmp
    exact ⟨p, hp, hq⟩
  · rintro ⟨p, hp, hq⟩
    exact ⟨p, p, hp, hq, cmp_self_eq_eq p⟩

theorem beq_symm (x y : Float) : (x == y) = (y == x) := by
  rw [Bool.eq_iff_iff, beq_iff_exists, beq_iff_exists]
  exact exists_congr fun p => and_comm

theorem beq_trans {x y z : Float} (hxy : (x == y) = true) (hyz : (y == z) = true) :
    (x == z) = true := by
  rw [beq_iff_exists] at hxy hyz ⊢
  obtain ⟨p, hx, hy⟩ := hxy
  obtain ⟨q, hy', hz⟩ := hyz
  obtain rfl : p = q := Option.some.inj (hy.symm.trans hy')
  exact ⟨p, hx, hz⟩

theorem beq_self_iff (x : Float) : (x == x) = true ↔ ¬ x.isNaN = true := by
  rw [beq_iff_exists, isNaN_iff, ← ne_eq, Option.ne_none_iff_exists']
  exact exists_congr fun p => and_self_iff

end RuleConditions.Number
