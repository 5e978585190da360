import RuleConditions.Proofs.Doubles.Rounding

/-!
# The nearest double

For rounding, an infinity stands at `± 2 ^ 1024`, where the next finite double would be if there were
one (`place?`).  `IsNearest q x` says that no double stands nearer to `q` than `x` does, and that `x`
has an even coefficient if another one stands as near.  Rounded numbers are nearest
(`IsRounded.isNearest`), and negation turns the nearest double of a number into that of its opposite
(`IsNearest.neg`).
-/

namespace RuleConditions.Number

open Float.Model (UnpackedFloat Format)
open Float.Model.UnpackedFloat

/-! ### Places -/

/-- Where infinity stands among the numbers to be rounded. -/
def infinityPlace : ℚ := 2 ^ 1024

/-- Where a double stands among the numbers to be rounded. -/
def place? (x : Float) : Option ℚ :=
  match parts x with
  | .infinity s => some (signed s infinityPlace)
  | .notANumber => none
  | .zero _ => some 0
  | .finite s m e _ => some (signed s (m * 2 ^ e))

/-- Whether the coefficient is even; that of an infinity would be. -/
def isEven (x : Float) : Bool :=
  match parts x with
  | .finite _ m _ _ => m % 2 = 0
  | .zero _ | .infinity _ | .notANumber => true

/-- The sign of a double.  NaN has none. -/
def sign? (x : Float) : Option Sign :=
  match parts x with
  | .infinity s | .zero s | .finite s _ _ _ => some s
  | .notANumber => none

/-- No double stands nearer to `q` than `x`, and `x` has an even coefficient if another stands as
near. -/
def IsNearest (q : ℚ) (x : Float) : Prop :=
  ∃ r, place? x = some r ∧ ∀ y r', place? y = some r' →
    |q - r| ≤ |q - r'| ∧ (|q - r| = |q - r'| → r' = r ∨ isEven x = true)

/-! ### Magnitudes -/

/-- The magnitudes of places. -/
structure IsMagnitude (a : ℚ) : Prop where
  exists_eq : ∃ (k : ℕ) (e : ℤ), k < 2 ^ 53 ∧ -1074 ≤ e ∧ a = k * 2 ^ e
  le : a ≤ infinityPlace

theorem infinityPlace_nonneg : 0 ≤ infinityPlace := by
  unfold infinityPlace
  positivity

theorem isMagnitude_zero : IsMagnitude 0 :=
  ⟨⟨0, 0, by decide, by decide, by simp⟩, infinityPlace_nonneg⟩

theorem infinityPlace_eq : infinityPlace = (2 ^ 52 : ℕ) * 2 ^ (972 : ℤ) := by
  rw [Nat.cast_pow, Nat.cast_ofNat, two_pow_mul_zpow]
  exact (zpow_natCast (2 : ℚ) 1024).symm

theorem isMagnitude_infinityPlace : IsMagnitude infinityPlace :=
  ⟨⟨2 ^ 52, 972, by decide, by decide, infinityPlace_eq⟩, le_rfl⟩

theorem IsMagnitude.nonneg {a : ℚ} (h : IsMagnitude a) : 0 ≤ a := by
  obtain ⟨k, e, -, -, rfl⟩ := h.exists_eq
  positivity

theorem mul_zpow_lt_infinityPlace {a : ℚ} {e : ℤ} (ha : a < 2 ^ 53) (he : e ≤ 971) :
    a * 2 ^ e < infinityPlace := by
  calc a * 2 ^ e < 2 ^ 53 * 2 ^ e := by gcongr
    _ ≤ 2 ^ 53 * 2 ^ (971 : ℤ) := by
      gcongr
      norm_num
    _ = infinityPlace := by
      rw [two_pow_mul_zpow]
      exact zpow_natCast (2 : ℚ) 1024

/-- A finite double stands for less than an infinity does. -/
theorem IsCanonical.lt_infinityPlace {m : ℕ} {e : ℤ} (h : IsCanonical m e) (he : e ≤ 971) :
    (m : ℚ) * 2 ^ e < infinityPlace :=
  mul_zpow_lt_infinityPlace (by exact_mod_cast h.lt) he

theorem IsCanonical.isMagnitude {m : ℕ} {e : ℤ} (h : IsCanonical m e) (he : e ≤ 971) :
    IsMagnitude (m * 2 ^ e) :=
  ⟨⟨m, e, h.lt, h.least_le, rfl⟩, (h.lt_infinityPlace he).le⟩

theorem exists_isMagnitude {y : Float} {r : ℚ} (h : place? y = some r) :
    ∃ s a, r = signed s a ∧ IsMagnitude a := by
  unfold place? at h
  cases hy : parts y with
  | notANumber =>
    rw [hy] at h
    cases h
  | infinity s =>
    rw [hy] at h
    exact ⟨s, _, (Option.some.inj h).symm, isMagnitude_infinityPlace⟩
  | zero s =>
    rw [hy] at h
    exact ⟨.positive, 0, (Option.some.inj h).symm, isMagnitude_zero⟩
  | finite s m e hm =>
    rw [hy] at h
    obtain ⟨hcanonical, he⟩ := isCanonical_of_parts hy
    exact ⟨s, _, (Option.some.inj h).symm, hcanonical.isMagnitude he⟩

/-- `w` is nearest to `q` among the magnitudes, and `even` if another one is as near. -/
def IsNearestMagnitude (q w : ℚ) (even : Prop) : Prop :=
  ∀ a, IsMagnitude a → |q - w| ≤ |q - a| ∧ (|q - w| = |q - a| → a = w ∨ even)

/-- A place on the other side of zero is no nearer than zero is. -/
theorem IsNearestMagnitude.signed {q w : ℚ} {even : Prop} (h : IsNearestMagnitude q w even)
    (hq : 0 ≤ q) (s s' : Sign) {a : ℚ} (ha : IsMagnitude a) :
    |signed s q - signed s w| ≤ |signed s q - signed s' a| ∧
      (|signed s q - signed s w| = |signed s q - signed s' a| →
        signed s' a = signed s w ∨ even) := by
  have hsame (b : ℚ) : |Number.signed s q - Number.signed s b| = |q - b| := by
    cases s with
    | positive => rfl
    | negative =>
      show |-q - -b| = |q - b|
      rw [neg_sub_neg, abs_sub_comm]
  rw [hsame]
  by_cases hs : s' = s
  · subst hs
    rw [hsame]
    obtain ⟨hle, heq⟩ := h a ha
    exact ⟨hle, fun h => (heq h).imp_left fun h => by rw [h]⟩
  · have hother : |Number.signed s q - Number.signed s' a| = q + a := by
      have hnonneg := ha.nonneg
      cases s <;> cases s' <;> first | exact absurd rfl hs | skip
      · show |-q - a| = q + a
        rw [abs_of_nonpos (by linarith)]
        ring
      · show |q - -a| = q + a
        rw [abs_of_nonneg (by linarith)]
        ring
    obtain ⟨hle, heq⟩ := h 0 isMagnitude_zero
    rw [sub_zero, abs_of_nonneg hq] at hle heq
    have hnonneg := ha.nonneg
    rw [hother]
    refine ⟨by linarith, fun hsum => ?_⟩
    obtain rfl : a = 0 := by linarith
    refine (heq (by linarith)).imp_left fun h => ?_
    rw [← h]
    cases s <;> cases s' <;> simp [Number.signed]

theorem IsNearestMagnitude.isNearest {q w : ℚ} {x : Float} {s : Sign} (hq : 0 ≤ q)
    (hplace : place? x = some (Number.signed s w))
    (h : IsNearestMagnitude q w (isEven x = true)) : IsNearest (Number.signed s q) x := by
  refine ⟨_, hplace, fun y r' hy => ?_⟩
  obtain ⟨s', a, rfl, ha⟩ := exists_isMagnitude hy
  exact h.signed hq s s' ha

/-! ### Rounded numbers -/

/-- No magnitude lies nearer than the rounded number: those with a greater exponent are multiples of
`2 ^ t` too, and those with a smaller one lie below the least full coefficient. -/
theorem IsRounding.dist_le {q : ℚ} {n : ℕ} {t : ℤ} (h : IsRounding q n t) {a : ℚ}
    (ha : IsMagnitude a) : |q - n * 2 ^ t| ≤ |q - a| ∧
      (|q - n * 2 ^ t| = |q - a| → a = n * 2 ^ t ∨ Even n) := by
  have hpos := two_zpow_pos t
  have hscale (j : ℕ) : |q - j * 2 ^ t| = |q / 2 ^ t - j| * 2 ^ t := by
    rw [← abs_of_pos hpos, ← abs_mul, abs_of_pos hpos, sub_mul, div_mul_cancel₀ _ hpos.ne']
  obtain ⟨k, e, hk, he, rfl⟩ := ha.exists_eq
  by_cases hte : t ≤ e
  -- a place on the grid of multiples of `2 ^ t`, where rounding to a whole number decides
  · have hgrid : (k : ℚ) * 2 ^ e = (k * 2 ^ (e - t).toNat : ℕ) * 2 ^ t := by
      push_cast
      rw [mul_assoc, two_pow_mul_zpow]
      congr 2
      omega
    obtain ⟨hle, heq⟩ := h.halfEven.dist_le (k * 2 ^ (e - t).toNat)
    rw [hgrid, hscale, hscale]
    refine ⟨by gcongr, fun h => ?_⟩
    refine (heq (mul_right_cancel₀ hpos.ne' h)).imp_left fun h => ?_
    rw [h]
  -- a place between the lines of the grid, which `2 ^ 52 * 2 ^ t` on the grid keeps away from `q`
  · have hfull : 2 ^ 52 * 2 ^ t ≤ q := h.full.resolve_left (by omega)
    have hlt : (k : ℚ) * 2 ^ e < 2 ^ 52 * 2 ^ t := mul_zpow_lt_of_lt hk (by omega)
    have hnear : |q - n * 2 ^ t| ≤ |q - (2 ^ 52 : ℕ) * 2 ^ t| := by
      rw [hscale, hscale]
      have := (h.halfEven.dist_le (2 ^ 52)).1
      gcongr
    rw [Nat.cast_pow, Nat.cast_ofNat] at hnear
    rw [abs_of_nonneg (sub_nonneg.mpr hfull)] at hnear
    rw [abs_of_pos (sub_pos.mpr (hlt.trans_le hfull))]
    exact ⟨by linarith, fun h => absurd h (by linarith)⟩

theorem place?_ofParts_infinity (s : Sign) :
    place? (ofParts (.infinity s)) = some (signed s infinityPlace) := by
  unfold place?
  rw [parts_ofParts_infinity]

theorem isEven_ofParts_infinity (s : Sign) : isEven (ofParts (.infinity s)) = true := by
  unfold isEven
  rw [parts_ofParts_infinity]

/-- All places lie below that of infinity. -/
theorem isNearestMagnitude_infinityPlace {q : ℚ} (hq : infinityPlace ≤ q) {even : Prop}
    (heven : even) : IsNearestMagnitude q infinityPlace even := by
  intro a ha
  have hle := ha.le
  rw [abs_of_nonneg (by linarith), abs_of_nonneg (by linarith)]
  exact ⟨by linarith, fun _ => .inr heven⟩

theorem isNearest_infinity {q : ℚ} (hq : infinityPlace ≤ q) (s : Sign) :
    IsNearest (signed s q) (ofParts (.infinity s)) := by
  apply IsNearestMagnitude.isNearest (infinityPlace_nonneg.trans hq) (place?_ofParts_infinity s)
  exact isNearestMagnitude_infinityPlace hq (isEven_ofParts_infinity s)

/-- Where the rounded number is too great for a double, `q` lies beyond the last half place. -/
theorem IsRounding.isNearestMagnitude_infinityPlace {q : ℚ} {n : ℕ} {t : ℤ} (h : IsRounding q n t)
    (hn : infinityPlace ≤ (n : ℚ) * 2 ^ t) {even : Prop} (heven : even) :
    IsNearestMagnitude q infinityPlace even := by
  obtain heq | hlt := hn.eq_or_lt
  · intro a ha
    rw [heq]
    exact ⟨(h.dist_le ha).1, fun _ => .inr heven⟩
  · apply Number.isNearestMagnitude_infinityPlace _ heven
    by_contra hq
    have hnear := (h.dist_le isMagnitude_infinityPlace).1
    rw [abs_of_neg (by linarith), abs_of_neg (by linarith)] at hnear
    linarith

theorem IsCanonical.infinityPlace_le {m : ℕ} {e : ℤ} (h : IsCanonical m e) (he : 971 < e) :
    infinityPlace ≤ m * 2 ^ e := by
  have hfull : (2 ^ 52 : ℕ) ≤ m := h.full.resolve_right (by omega)
  rw [infinityPlace_eq]
  gcongr
  · norm_num
  · omega

theorem IsRounded.isNearest {s : Sign} {q : ℚ} {u : UnpackedFloat} (h : IsRounded s q u)
    (hq : 0 ≤ q) : IsNearest (signed s q) (ofParts u) := by
  obtain ⟨n, t, hrounding, hvalue⟩ := h
  cases hvalue with
  | zero hn =>
    subst hn
    have hplace : place? (ofParts (.zero s)) = some (signed s ((0 : ℕ) * 2 ^ t)) := by
      unfold place?
      rw [parts_ofParts_zero]
      cases s <;> simp [signed]
    have heven : isEven (ofParts (.zero s)) = true := by
      unfold isEven
      rw [parts_ofParts_zero]
    refine IsNearestMagnitude.isNearest hq hplace fun a ha => ?_
    exact ⟨(hrounding.dist_le ha).1, fun _ => .inr heven⟩
  | @finite m e hm hcanonical hvalue heven =>
    by_cases he : e ≤ 971
    · have hparts := hcanonical.parts_ofParts hm he s
      have hplace : place? (ofParts (.finite s m e hm)) = some (signed s (n * 2 ^ t)) := by
        unfold place?
        rw [hparts, ← hvalue]
      refine IsNearestMagnitude.isNearest hq hplace fun a ha => ?_
      obtain ⟨hle, heq⟩ := hrounding.dist_le ha
      refine ⟨hle, fun h => (heq h).imp_right fun h => ?_⟩
      unfold isEven
      rw [hparts]
      exact decide_eq_true (Nat.even_iff.mp (heven h))
    · rw [ofParts_of_lt hm (by omega) s]
      apply IsNearestMagnitude.isNearest hq (place?_ofParts_infinity s)
      apply hrounding.isNearestMagnitude_infinityPlace _ (isEven_ofParts_infinity s)
      rw [← hvalue]
      exact hcanonical.infinityPlace_le (by omega)

theorem HasValue.sign? {s : Sign} {n : ℕ} {t : ℤ} {u : UnpackedFloat} (h : HasValue s n t u) :
    sign? (ofParts u) = some s := by
  unfold Number.sign?
  cases h with
  | zero hn => rw [parts_ofParts_zero]
  | @finite m e hm hcanonical hvalue heven =>
    by_cases he : e ≤ 971
    · rw [hcanonical.parts_ofParts hm he]
    · rw [ofParts_of_lt hm (by omega), parts_ofParts_infinity]

/-! ### Negation -/

theorem neg_eq_ofParts (x : Float) : -x = ofParts (parts x).neg := rfl

/-- A double has canonical parts, so negation loses none of them. -/
theorem parts_neg (x : Float) : parts (-x) = (parts x).neg := by
  rw [neg_eq_ofParts]
  cases hx : parts x with
  | notANumber => exact parts_ofParts_notANumber
  | infinity s => exact parts_ofParts_infinity _
  | zero s => exact parts_ofParts_zero _
  | finite s m e hm =>
    obtain ⟨hcanonical, he⟩ := isCanonical_of_parts hx
    exact hcanonical.parts_ofParts hm he _

theorem signed_neg (s : Sign) (a : ℚ) : signed (-s) a = -signed s a := by
  cases s with
  | positive => rfl
  | negative => exact (neg_neg a).symm

theorem place?_neg (x : Float) : place? (-x) = (place? x).map Neg.neg := by
  unfold place?
  rw [parts_neg]
  cases parts x with
  | notANumber => rfl
  | infinity s => exact congrArg some (signed_neg s _)
  | zero s => exact congrArg some neg_zero.symm
  | finite s m e hm => exact congrArg some (signed_neg s _)

theorem isEven_neg (x : Float) : isEven (-x) = isEven x := by
  unfold isEven
  rw [parts_neg]
  cases parts x <;> rfl

theorem sign?_neg (x : Float) : sign? (-x) = (sign? x).map Neg.neg := by
  unfold sign?
  rw [parts_neg]
  cases parts x <;> rfl

theorem IsNearest.neg {q : ℚ} {x : Float} (h : IsNearest q x) : IsNearest (-q) (-x) := by
  obtain ⟨r, hplace, hnearest⟩ := h
  refine ⟨-r, by rw [place?_neg, hplace]; rfl, fun y r' hy => ?_⟩
  obtain ⟨hle, heq⟩ := hnearest (-y) (-r') (by rw [place?_neg, hy]; rfl)
  have hdist (b : ℚ) : |-q - b| = |q - -b| := by
    rw [← abs_neg]
    congr 1
    ring
  rw [hdist, hdist, neg_neg, isEven_neg]
  exact ⟨hle, fun h => (heq h).imp_left neg_eq_iff_eq_neg.mp⟩

end RuleConditions.Number
