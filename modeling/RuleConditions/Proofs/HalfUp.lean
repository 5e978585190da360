import RuleConditions.Proofs.Doubles.Whole

/-!
# Rounding halves up

`round` compares what is left above the floor with a half, and adds one or not.  Both the difference
and the sum are calculated with doubles, and still the result is the floor of `q + 1 / 2` for every
double (`rational?_round`).

What is left above the floor is itself a double, with one exception (`IsRepresentable.sub_floor`).
Down to the place `2 ^ (-53)` it has few enough bits.  A number with lower places is less than a
half in magnitude: of a positive one nothing is taken away, and of a negative one more than a half
is left.  Then the difference may be rounded, but not to less than a half, since a half is a double.
-/

namespace RuleConditions.Number

open Float.Model (UnpackedFloat)
open Float.Model.UnpackedFloat

variable {x : Float} {q : ℚ}

/-! ### What is left above the floor -/

theorem rational?_half : rational? 0.5 = some (1 / 2) := by decide +kernel

theorem rational?_one : rational? 1 = some 1 := by decide +kernel

/-- With no places below `2 ^ (-53)` fewer than 54 bits stand behind the point. -/
theorem isRepresentable_sub_floor {k e : ℤ} (hleast : -53 ≤ e) (he : e < 0) (hq : q = k * 2 ^ e) :
    IsRepresentable (q - ⌊q⌋) := by
  have hone : (2 : ℚ) ^ (-e).toNat * 2 ^ e = 1 := by
    rw [two_pow_mul_zpow, Int.toNat_of_nonneg (by omega), neg_add_cancel, zpow_zero]
  obtain ⟨j, hj⟩ : ∃ j : ℤ, q - ⌊q⌋ = j * 2 ^ e := by
    refine ⟨k - ⌊q⌋ * 2 ^ (-e).toNat, ?_⟩
    push_cast
    rw [sub_mul, mul_assoc, hone, ← hq, mul_one]
  have hnonneg : (0 : ℚ) ≤ j := by
    have hfloor := Int.floor_le q
    rw [← sub_nonneg, hj] at hfloor
    exact nonneg_of_mul_nonneg_left hfloor (two_zpow_pos e)
  have hlt : (j : ℚ) < 2 ^ (-e).toNat := by
    have hfloor := Int.lt_floor_add_one q
    rw [← sub_lt_iff_lt_add', hj, ← hone] at hfloor
    exact lt_of_mul_lt_mul_right hfloor (two_zpow_pos e).le
  have hbits : (2 : ℤ) ^ (-e).toNat ≤ 2 ^ 53 := pow_le_pow_right₀ (by norm_num) (by omega)
  have hj_nonneg : 0 ≤ j := by exact_mod_cast hnonneg
  have hj_lt : j < 2 ^ (-e).toNat := by exact_mod_cast hlt
  exact ⟨j, e, by rw [abs_of_nonneg hj_nonneg]; omega, by omega, by omega, hj⟩

theorem IsRepresentable.sub_floor (h : IsRepresentable q) :
    IsRepresentable (q - ⌊q⌋) ∨ -(1 / 2) < q ∧ q < 0 := by
  obtain ⟨k, e, hk, -, -, hq⟩ := id h
  obtain he | he : 0 ≤ e ∨ e < 0 := le_or_gt 0 e
  · left
    rw [hq, intCast_mul_zpow k he, Int.floor_intCast, sub_self]
    exact isRepresentable_intCast (n := 0) (by norm_num)
  obtain hleast | hleast : -53 ≤ e ∨ e < -53 := le_or_gt (-53) e
  · exact .inl (isRepresentable_sub_floor hleast he hq)
  have hhalf : |q| < 1 / 2 := by
    have hk : |(k : ℚ)| < 2 ^ 53 := by exact_mod_cast hk
    calc |q| = |(k : ℚ)| * 2 ^ e := by rw [hq, abs_mul, abs_of_pos (two_zpow_pos e)]
      _ < 2 ^ 53 * 2 ^ e := by gcongr
      _ ≤ 2 ^ 53 * 2 ^ (-54 : ℤ) := by
        gcongr
        · norm_num
        · omega
      _ = 1 / 2 := by norm_num
  obtain ⟨hlow, hhigh⟩ := abs_lt.mp hhalf
  obtain hsign | hsign := le_or_gt 0 q
  · left
    have hfloor : ⌊q⌋ = 0 := Int.floor_eq_iff.mpr ⟨by simpa using hsign, by norm_num; linarith⟩
    rwa [hfloor, Int.cast_zero, sub_zero]
  · exact .inr ⟨hlow, hsign⟩

/-- The difference of doubles lies on the same side of a half as what is left. -/
theorem half_le_sub_floor_iff (h : rational? x = some q) :
    0.5 ≤ x - floor x ↔ 1 / 2 ≤ q - ⌊q⌋ := by
  have hnearest := isNearest_sub h (rational?_floor h)
  have hhalf := place?_of_rational? rational?_half
  rw [le_iff_place?]
  obtain hexact | ⟨hlow, hhigh⟩ := (isRepresentable_of_rational? h).sub_floor
  · have hplace := place?_of_rational? (hnearest.rational?_eq hexact)
    rw [hhalf, hplace]
    exact ⟨fun ⟨_, _, rfl, rfl, h⟩ => h, fun h => ⟨_, _, rfl, rfl, h⟩⟩
  · have hfloor : ⌊q⌋ = -1 := Int.floor_eq_iff.mpr ⟨by norm_num; linarith, by norm_num; linarith⟩
    have hmore : 1 / 2 < q - ⌊q⌋ := by
      rw [hfloor]
      push_cast
      linarith
    obtain ⟨r, hr, -⟩ := id hnearest
    have hle := (isNearest_of_place? hhalf).le_of_lt hnearest hmore hhalf hr
    exact iff_of_true ⟨1 / 2, r, hhalf, hr, hle⟩ hmore.le

/-! ### Rounding -/

theorem floor_add_half_of_le (h : 1 / 2 ≤ q - ⌊q⌋) : ⌊q + 1 / 2⌋ = ⌊q⌋ + 1 := by
  have hlt := Int.lt_floor_add_one q
  rw [Int.floor_eq_iff]
  push_cast
  constructor <;> linarith

theorem floor_add_half_of_lt (h : q - ⌊q⌋ < 1 / 2) : ⌊q + 1 / 2⌋ = ⌊q⌋ := by
  have hle := Int.floor_le q
  rw [Int.floor_eq_iff]
  constructor <;> linarith

theorem rational?_floor_add_one (h : rational? x = some q) (hfraction : ∀ n : ℤ, (n : ℚ) ≠ q) :
    rational? (floor x + 1) = some ((⌊q⌋ + 1 : ℤ) : ℚ) := by
  have hnearest := isNearest_add (rational?_floor h) rational?_one
  obtain ⟨hlow, hhigh⟩ := abs_lt.mp ((isRepresentable_of_rational? h).abs_lt_of_not_whole hfraction)
  have hfloor_lt : ⌊q⌋ < 2 ^ 52 := Int.floor_lt.mpr (by exact_mod_cast hhigh)
  have hle_floor : -2 ^ 52 ≤ ⌊q⌋ := Int.le_floor.mpr (by push_cast; exact hlow.le)
  rw [← Int.cast_one, ← Int.cast_add] at hnearest
  exact hnearest.rational?_eq (isRepresentable_intCast (abs_le.mpr (by omega)))

theorem rational?_round (h : rational? x = some q) :
    rational? (round x) = some (⌊q + 1 / 2⌋ : ℚ) := by
  have hstep := half_le_sub_floor_iff h
  unfold round
  obtain hle | hlt := le_or_gt (1 / 2) (q - ⌊q⌋)
  · have hfraction (n : ℤ) : (n : ℚ) ≠ q := by
      rintro rfl
      rw [Int.floor_intCast, sub_self] at hle
      norm_num at hle
    rw [floor_add_half_of_le hle, if_pos (hstep.mpr hle)]
    exact rational?_floor_add_one h hfraction
  · rw [floor_add_half_of_lt hlt, if_neg fun hle => hlt.not_ge (hstep.mp hle)]
    exact rational?_floor h

/-- Nothing is left of an infinity, not even a zero. -/
theorem place?_sub_self (h : rational? x = none) : place? (x - x) = none := by
  have hleft : x - x = ofParts .notANumber := by
    show ofParts (sub .binary64 (parts x) (parts x)) = _
    obtain ⟨s, hx⟩ | hx := parts_of_rational?_eq_none h
    · rw [hx]
      cases s <;> rfl
    · rw [hx]
      rfl
  rw [hleft]
  rfl

theorem round_eq_self (h : rational? x = none) : round x = x := by
  have hfloor : floor x = x := by
    apply floor_eq_self
    obtain ⟨s, hx⟩ | hx := parts_of_rational?_eq_none h <;> rw [hx] <;> nofun
  have hstep : ¬ 0.5 ≤ x - floor x := by
    rw [hfloor, le_iff_place?, place?_sub_self h]
    rintro ⟨_, _, -, ⟨⟩, -⟩
  unfold round
  rw [if_neg hstep, hfloor]

/-- **Rounding is exact**: a number becomes the greatest whole number that is at most a half above
it, and what is no finite number stays as it is. -/
theorem rational?_round_and_round_eq_self (x : Float) :
    (∀ q, rational? x = some q → rational? (round x) = some (⌊q + 1 / 2⌋ : ℚ)) ∧
    (rational? x = none → round x = x) :=
  ⟨fun _ => rational?_round, round_eq_self⟩

/-- Just below a half nothing is added, and infinity stays. -/
theorem rational?_round_below_half_and_round_infinity :
    rational? (round 0.49999999999999994) = some 0 ∧ round infinity = infinity := by
  have hbelow : rational? 0.49999999999999994 = some ((2 ^ 53 - 1) / 2 ^ 54) := by decide +kernel
  have hfloor : ⌊(2 ^ 53 - 1) / 2 ^ 54 + 1 / (2 : ℚ)⌋ = 0 := by
    rw [Int.floor_eq_iff]
    norm_num
  have h := (rational?_round_and_round_eq_self 0.49999999999999994).1 _ hbelow
  rw [hfloor, Int.cast_zero] at h
  exact ⟨h, (rational?_round_and_round_eq_self infinity).2 (by decide +kernel)⟩

end RuleConditions.Number
