import RuleConditions.Proofs.Doubles.Exact

/-!
# Sums and differences

The sum of two finite doubles is the double nearest to the sum of their numbers (`isNearest_add`), and
a difference is a sum with the opposite (`subtract_eq_add_neg`).  Whole numbers become doubles in the
same way (`isNearest_ofInt`).

A difference may be rounded, but never to zero: two different doubles are at least `2 ^ (-1074)`
apart, and that is a double (`sub_beq_zero_iff`).
-/

namespace RuleConditions.Number

open Float.Model (UnpackedFloat Format)
open Float.Model.UnpackedFloat

variable {x y : Float} {q r : ℚ}

/-! ### Whole numbers of the last place -/

theorem isNearest_round (s : Sign) (m : ℕ) (e : ℤ) :
    IsNearest (signed s (m * 2 ^ e)) (ofParts (UnpackedFloat.round .binary64 s m e)) :=
  (isRounded_round s m e).isNearest (by positivity)

theorem isNearest_of_place? (h : place? x = some q) : IsNearest q x := by
  refine ⟨q, h, fun y r' _ => ?_⟩
  rw [sub_self, abs_zero]
  exact ⟨abs_nonneg _, fun hzero => .inl (sub_eq_zero.mp (abs_eq_zero.mp hzero.symm)).symm⟩

theorem place?_ofParts_zero (s : Sign) : place? (ofParts (.zero s)) = some 0 := by
  unfold place?
  rw [parts_ofParts_zero]

theorem isNearest_normalize (n e : ℤ) :
    IsNearest (n * 2 ^ e) (ofParts (UnpackedFloat.normalize .binary64 n e .positive)) := by
  unfold UnpackedFloat.normalize
  obtain h | rfl | h := lt_trichotomy n 0
  · rw [Int.compare_eq_lt.mpr h]
    have hn : (n : ℚ) * 2 ^ e = signed .negative ((-n).toNat * 2 ^ e) := by
      rw [signed, ← neg_mul, ← Int.cast_natCast, Int.toNat_of_nonneg (by omega), Int.cast_neg,
        neg_neg]
    rw [hn]
    exact isNearest_round .negative _ e
  · rw [Int.compare_eq_eq.mpr rfl, Int.cast_zero, zero_mul]
    exact isNearest_of_place? (place?_ofParts_zero .positive)
  · rw [Int.compare_eq_gt.mpr h]
    have hn : (n : ℚ) * 2 ^ e = signed .positive (n.toNat * 2 ^ e) := by
      rw [signed, ← Int.cast_natCast, Int.toNat_of_nonneg h.le]
    rw [hn]
    exact isNearest_round .positive _ e

theorem isNearest_ofInt (n : ℤ) : IsNearest n (ofInt n) := by
  have h := isNearest_normalize n 0
  rwa [zpow_zero, mul_one] at h

/-! ### Sums -/

theorem add_eq_ofParts (x y : Float) : x + y = ofParts (add .binary64 (parts x) (parts y)) := rfl

/-- A magnitude as a whole number of a smaller place. -/
theorem apply_shiftLeft_mul_zpow (s : Sign) (m : ℕ) {e t : ℤ} (h : t ≤ e) :
    ((s.apply (m <<< (e - t).toNat : ℕ) : ℤ) : ℚ) * 2 ^ t = signed s (m * 2 ^ e) := by
  have ht : e - (e - t).toNat = t := by omega
  rw [apply_mul_eq_signed, ← shiftLeft_mul_zpow m (e - t).toNat e, ht]

/-- **A sum is rounded once.**  Of two numbers that are not zero the coefficients are added at the
smaller exponent, which is exact. -/
theorem isNearest_add (hx : rational? x = some q) (hy : rational? y = some r) :
    IsNearest (q + r) (x + y) := by
  rw [add_eq_ofParts]
  obtain ⟨s, hu, rfl⟩ | ⟨s, m, e, hm, hu, rfl⟩ := parts_of_rational? hx
  · obtain ⟨s', hv, rfl⟩ | ⟨s', m', e', hm', hv, rfl⟩ := parts_of_rational? hy
    · rw [hu, hv, add_zero]
      apply isNearest_of_place?
      cases s <;> cases s' <;> rfl
    · have hsum : add .binary64 (parts x) (parts y) = parts y := by
        rw [hu, hv]
        rfl
      rw [hsum, ofParts_parts, zero_add]
      exact isNearest_of_place? (place?_of_rational? hy)
  · obtain ⟨s', hv, rfl⟩ | ⟨s', m', e', hm', hv, rfl⟩ := parts_of_rational? hy
    · have hsum : add .binary64 (parts x) (parts y) = parts x := by
        rw [hu, hv]
        rfl
      rw [hsum, ofParts_parts, add_zero]
      exact isNearest_of_place? (place?_of_rational? hx)
    · rw [hu, hv]
      show IsNearest _ (ofParts (UnpackedFloat.normalize .binary64
        (s.apply (m <<< (e - min e e').toNat : ℕ) + s'.apply (m' <<< (e' - min e e').toNat : ℕ))
        (min e e') .positive))
      rw [← apply_shiftLeft_mul_zpow s m (min_le_left e e'),
        ← apply_shiftLeft_mul_zpow s' m' (min_le_right e e'), ← add_mul, ← Int.cast_add]
      exact isNearest_normalize _ _

/-! ### Differences -/

theorem apply_neg (s : Sign) (n : ℤ) : (-s).apply n = -s.apply n := by
  cases s with
  | positive => rfl
  | negative => exact (neg_neg n).symm

theorem subtract_eq_add_neg (x y : Float) : x - y = x + -y := by
  have hparts : sub .binary64 (parts x) (parts y) = add .binary64 (parts x) (parts y).neg := by
    cases parts x with
    | notANumber => rfl
    | infinity s => cases parts y <;> rfl
    | zero s => cases parts y <;> rfl
    | finite s m e hm => cases parts y with
      | finite s' m' e' hm' =>
        show UnpackedFloat.normalize .binary64 (_ - s'.apply _) _ _ =
          UnpackedFloat.normalize .binary64 (_ + (-s').apply _) _ _
        rw [apply_neg, sub_eq_add_neg]
      | _ => rfl
  rw [add_eq_ofParts, parts_neg, ← hparts]
  rfl

theorem rational?_neg (h : rational? x = some q) : rational? (-x) = some (-q) := by
  have hplace : place? (-x) = some (-q) := by rw [place?_neg, place?_of_rational? h]; rfl
  refine rational?_of_place? hplace ?_
  rw [abs_neg]
  exact (isRepresentable_of_rational? h).lt_infinityPlace

theorem isNearest_sub (hx : rational? x = some q) (hy : rational? y = some r) :
    IsNearest (q - r) (x - y) := by
  rw [subtract_eq_add_neg, sub_eq_add_neg]
  exact isNearest_add hx (rational?_neg hy)

/-! ### A difference of different numbers -/

/-- The least positive double. -/
theorem isRepresentable_least : IsRepresentable (2 ^ (-1074 : ℤ)) :=
  ⟨1, -1074, by norm_num, by norm_num, by norm_num, by rw [Int.cast_one, one_mul]⟩

theorem IsRepresentable.exists_eq_mul_least (h : IsRepresentable q) :
    ∃ n : ℤ, q = n * 2 ^ (-1074 : ℤ) := by
  obtain ⟨k, e, -, hleast, -, rfl⟩ := h
  refine ⟨k * 2 ^ (e + 1074).toNat, ?_⟩
  rw [Int.cast_mul, Int.cast_pow, Int.cast_ofNat, mul_assoc, two_pow_mul_zpow]
  congr 2
  omega

/-- Two different doubles are at least the least positive double apart. -/
theorem IsRepresentable.least_le_abs_sub (hq : IsRepresentable q) (hr : IsRepresentable r)
    (h : q ≠ r) : 2 ^ (-1074 : ℤ) ≤ |q - r| := by
  obtain ⟨n, rfl⟩ := hq.exists_eq_mul_least
  obtain ⟨n', rfl⟩ := hr.exists_eq_mul_least
  have hne : n ≠ n' := fun heq => h (by rw [heq])
  have hone : (1 : ℚ) ≤ |(n : ℚ) - n'| := by
    exact_mod_cast Int.one_le_abs (sub_ne_zero.mpr hne)
  rw [← sub_mul, abs_mul, abs_of_pos (two_zpow_pos _)]
  exact le_mul_of_one_le_left (two_zpow_pos _).le hone

/-- What is at least as far from zero as the least positive double is not rounded to zero. -/
theorem IsNearest.place?_ne_zero (h : IsNearest q x) (hq : 2 ^ (-1074 : ℤ) ≤ |q|) :
    place? x ≠ some 0 := by
  intro hzero
  obtain ⟨p, hp, hnearest⟩ := h
  obtain rfl : p = 0 := Option.some.inj (hp.symm.trans hzero)
  have hpos := two_zpow_pos (-1074)
  obtain ⟨y, hy⟩ := isRepresentable_least.exists_rational?
  -- the least double of the sign of `q` would be nearer
  obtain hsign | hsign := le_total 0 q
  · have hdist := (hnearest y _ (place?_of_rational? hy)).1
    rw [abs_of_nonneg hsign] at hq
    rw [sub_zero, abs_of_nonneg hsign, abs_of_nonneg (by linarith)] at hdist
    linarith
  · have hdist := (hnearest (-y) _ (place?_of_rational? (rational?_neg hy))).1
    rw [abs_of_nonpos hsign] at hq
    rw [sub_zero, abs_of_nonpos hsign, abs_of_nonpos (by linarith)] at hdist
    linarith

/-- **A difference is zero exactly if the numbers are the same.** -/
theorem sub_beq_zero_iff (hx : rational? x = some q) (hy : rational? y = some r) :
    (x - y == 0) = true ↔ q = r := by
  have hnearest := isNearest_sub hx hy
  have hzero : (x - y == 0) = true ↔ place? (x - y) = some 0 := by
    rw [beq_iff_place?]
    exact ⟨fun ⟨p, hp, h⟩ => by rw [hp, ← h]; rfl, fun h => ⟨0, h, rfl⟩⟩
  rw [hzero]
  constructor
  · intro h
    by_contra hne
    have hapart := (isRepresentable_of_rational? hx).least_le_abs_sub
      (isRepresentable_of_rational? hy) hne
    exact hnearest.place?_ne_zero hapart h
  · rintro rfl
    rw [sub_self] at hnearest
    exact hnearest.place?_eq (y := 0) rfl

end RuleConditions.Number
