import Mathlib.Order.Interval.Set.Defs
import Mathlib.Order.Monotone.Basic
import RuleConditions.Proofs.Doubles.Nearest

/-!
# What rounding keeps

The numbers of finite doubles are the `k · 2 ^ e` with fewer than 54 bits and an exponent in range
(`IsRepresentable.exists_rational?`).  Rounding keeps them (`IsNearest.rational?_eq`), and of two numbers it never
puts the greater below the smaller (`IsNearest.le_of_lt`).  Both follow from nearness alone, whatever
happens to ties.

Places are in the order of the doubles themselves (`le_iff_place?`), so what is shown of the one holds
of the other.
-/

namespace RuleConditions.Number

open Float.Model (UnpackedFloat Format totalExponent)
open Float.Model.UnpackedFloat

variable {x y : Float} {q r : ℚ}

/-! ### The order of places -/

/-- The point of a place. -/
def pointOfPlace (r : ℚ) : Line :=
  if infinityPlace ≤ r then ⊤ else if r ≤ -infinityPlace then ⊥ else point r

theorem infinityPlace_pos : 0 < infinityPlace := by
  unfold infinityPlace
  positivity

theorem pointOfPlace_of_abs_lt (h : |r| < infinityPlace) : pointOfPlace r = point r := by
  obtain ⟨hlow, hhigh⟩ := abs_lt.mp h
  rw [pointOfPlace, if_neg hhigh.not_ge, if_neg hlow.not_ge]

theorem strictMonoOn_pointOfPlace :
    StrictMonoOn pointOfPlace (Set.Icc (-infinityPlace) infinityPlace) := by
  intro r hr r' hr' h
  have hr_lt : ¬ infinityPlace ≤ r := (h.trans_le hr'.2).not_ge
  have lt_hr' : ¬ r' ≤ -infinityPlace := (hr.1.trans_lt h).not_ge
  unfold pointOfPlace
  rw [if_neg hr_lt, if_neg lt_hr']
  by_cases hlow : r ≤ -infinityPlace <;> by_cases hhigh : infinityPlace ≤ r'
  · rw [if_pos hlow, if_pos hhigh]
    exact bot_lt_top
  · rw [if_pos hlow, if_neg hhigh]
    exact WithBot.bot_lt_coe _
  · rw [if_neg hlow, if_pos hhigh]
    exact WithBot.coe_lt_coe.mpr (WithTop.coe_lt_top r)
  · rw [if_neg hlow, if_neg hhigh]
    exact WithBot.coe_lt_coe.mpr (WithTop.coe_lt_coe.mpr h)

theorem abs_signed (s : Sign) {a : ℚ} (ha : 0 ≤ a) : |signed s a| = a := by
  cases s with
  | positive => exact abs_of_nonneg ha
  | negative => rw [signed, abs_neg, abs_of_nonneg ha]

theorem abs_place?_le (h : place? x = some r) : |r| ≤ infinityPlace := by
  obtain ⟨s, a, rfl, ha⟩ := exists_isMagnitude h
  rw [abs_signed s ha.nonneg]
  exact ha.le

theorem value?_eq_map_place? (x : Float) : value? x = (place? x).map pointOfPlace := by
  have hpos := infinityPlace_pos
  unfold value? place?
  cases hx : parts x with
  | notANumber => rfl
  | infinity s => cases s with
    | positive =>
      show some ⊤ = some (pointOfPlace infinityPlace)
      rw [pointOfPlace, if_pos le_rfl]
    | negative =>
      show some ⊥ = some (pointOfPlace (-infinityPlace))
      rw [pointOfPlace, if_neg (by linarith), if_pos le_rfl]
  | zero s =>
    have hzero : |(0 : ℚ)| < infinityPlace := abs_zero.trans_lt hpos
    exact congrArg some (pointOfPlace_of_abs_lt hzero).symm
  | finite s m e hm =>
    obtain ⟨hcanonical, he⟩ := isCanonical_of_parts hx
    refine congrArg some (pointOfPlace_of_abs_lt ?_).symm
    rw [abs_signed s (magnitude_pos hm e).le]
    exact hcanonical.lt_infinityPlace he

/-- Doubles compare as their places do. -/
theorem map₂_cmp_place? (x y : Float) :
    Option.map₂ cmp (value? x) (value? y) = Option.map₂ cmp (place? x) (place? y) := by
  rw [value?_eq_map_place?, value?_eq_map_place?]
  cases hx : place? x with
  | none => rfl
  | some r => cases hy : place? y with
    | none => rfl
    | some r' =>
      have hr := abs_le.mp (abs_place?_le hx)
      have hr' := abs_le.mp (abs_place?_le hy)
      exact congrArg some (strictMonoOn_pointOfPlace.cmp_map_eq hr hr')

theorem isLE_cmp (r r' : ℚ) : (cmp r r').isLE = true ↔ r ≤ r' := by
  obtain h | rfl | h := lt_trichotomy r r'
  · rw [(cmp_eq_lt_iff r r').mpr h]
    exact iff_of_true rfl h.le
  · rw [cmp_self_eq_eq]
    exact iff_of_true rfl le_rfl
  · rw [(cmp_eq_gt_iff r r').mpr h]
    exact iff_of_false Bool.false_ne_true h.not_ge

theorem le_iff_place? (x y : Float) :
    x ≤ y ↔ ∃ r r', place? x = some r ∧ place? y = some r' ∧ r ≤ r' := by
  show decide (x.toModel ≤ y.toModel) = true ↔ _
  rw [decide_eq_true_iff]
  show ((parts x).compare (parts y)).any Ordering.isLE = true ↔ _
  rw [compare_parts, map₂_cmp_place?]
  cases place? x with
  | none => exact iff_of_false Bool.false_ne_true nofun
  | some r => cases place? y with
    | none => exact iff_of_false Bool.false_ne_true nofun
    | some r' =>
      show (cmp r r').isLE = true ↔ _
      rw [isLE_cmp]
      exact ⟨fun h => ⟨r, r', rfl, rfl, h⟩, fun ⟨_, _, rfl, rfl, h⟩ => h⟩

theorem lt_iff_place? (x y : Float) :
    x < y ↔ ∃ r r', place? x = some r ∧ place? y = some r' ∧ r < r' := by
  rw [lt_iff, map₂_cmp_place?, Option.map₂_eq_some_iff]
  refine exists₂_congr fun r r' => ?_
  rw [cmp_eq_lt_iff, Option.mem_def, Option.mem_def]

theorem isNaN_eq_false_iff_place? (x : Float) : x.isNaN = false ↔ ∃ r, place? x = some r := by
  rw [← Bool.not_eq_true, isNaN_iff, value?_eq_map_place?, Option.map_eq_none_iff, ← ne_eq,
    Option.ne_none_iff_exists']

theorem float_le_of_lt (h : x < y) : x ≤ y := by
  rw [lt_iff_place?] at h
  obtain ⟨r, r', hr, hr', hlt⟩ := h
  exact (le_iff_place? x y).mpr ⟨r, r', hr, hr', hlt.le⟩

theorem float_le_of_not_lt (hx : x.isNaN = false) (hy : y.isNaN = false) (h : ¬ x < y) :
    y ≤ x := by
  obtain ⟨r, hr⟩ := (isNaN_eq_false_iff_place? x).mp hx
  obtain ⟨r', hr'⟩ := (isNaN_eq_false_iff_place? y).mp hy
  refine (le_iff_place? y x).mpr ⟨r', r, hr', hr, not_lt.mp fun hlt => h ?_⟩
  exact (lt_iff_place? x y).mpr ⟨r, r', hr, hr', hlt⟩

theorem beq_iff_place? (x y : Float) :
    (x == y) = true ↔ ∃ r, place? x = some r ∧ place? y = some r := by
  rw [beq_iff, map₂_cmp_place?, Option.map₂_eq_some_iff]
  constructor
  · rintro ⟨r, r', hx, hy, h⟩
    obtain rfl := (cmp_eq_eq_iff r r').mp h
    exact ⟨r, hx, hy⟩
  · rintro ⟨r, hx, hy⟩
    exact ⟨r, r, hx, hy, cmp_self_eq_eq r⟩

/-! ### The numbers of finite doubles -/

/-- The numbers that finite doubles stand for. -/
def IsRepresentable (q : ℚ) : Prop :=
  ∃ k e : ℤ, |k| < 2 ^ 53 ∧ -1074 ≤ e ∧ e ≤ 971 ∧ q = k * 2 ^ e

theorem place?_of_rational? (h : rational? x = some q) : place? x = some q := by
  unfold place?
  obtain ⟨s, hx, rfl⟩ | ⟨s, m, e, hm, hx, rfl⟩ := parts_of_rational? h
  · rw [hx]
  · rw [hx]

theorem rational?_of_place? (h : place? x = some q) (hq : |q| < infinityPlace) :
    rational? x = some q := by
  unfold place? at h
  unfold rational?
  cases hx : parts x with
  | notANumber =>
    rw [hx] at h
    cases h
  | infinity s =>
    rw [hx] at h
    obtain rfl := Option.some.inj h
    rw [abs_signed s infinityPlace_pos.le] at hq
    exact absurd hq (lt_irrefl _)
  | zero s =>
    rw [hx] at h
    exact h
  | finite s m e hm =>
    rw [hx] at h
    show some (((s.apply m : ℤ) : ℚ) * 2 ^ e) = some q
    rw [apply_mul_eq_signed]
    exact h

theorem isRepresentable_of_rational? (h : rational? x = some q) : IsRepresentable q := by
  obtain ⟨s, -, rfl⟩ | ⟨s, m, e, hm, hx, rfl⟩ := parts_of_rational? h
  · exact ⟨0, 0, by norm_num, by norm_num, by norm_num, by simp⟩
  · obtain ⟨hcanonical, he⟩ := isCanonical_of_parts hx
    have hm : (m : ℤ) < 2 ^ 53 := by exact_mod_cast hcanonical.lt
    refine ⟨s.apply m, e, ?_, hcanonical.least_le, he, (apply_mul_eq_signed s m e).symm⟩
    cases s with
    | positive => rwa [Sign.apply, abs_of_nonneg (by omega)]
    | negative => rwa [Sign.apply, abs_neg, abs_of_nonneg (by omega)]

theorem intCast_mul_zpow (k : ℤ) {e : ℤ} (he : 0 ≤ e) :
    (k : ℚ) * 2 ^ e = (k * 2 ^ e.toNat : ℤ) := by
  rw [Int.cast_mul, Int.cast_pow, Int.cast_ofNat, ← zpow_natCast, Int.toNat_of_nonneg he]

theorem IsRepresentable.lt_infinityPlace (h : IsRepresentable q) : |q| < infinityPlace := by
  obtain ⟨k, e, hk, -, he, rfl⟩ := h
  rw [abs_mul, abs_of_pos (two_zpow_pos e)]
  exact mul_zpow_lt_infinityPlace (by exact_mod_cast hk) he

theorem IsRepresentable.isMagnitude (h : IsRepresentable q) : IsMagnitude |q| := by
  refine ⟨?_, h.lt_infinityPlace.le⟩
  obtain ⟨k, e, hk, hleast, -, rfl⟩ := h
  rw [Int.abs_eq_natAbs] at hk
  refine ⟨k.natAbs, e, by omega, hleast, ?_⟩
  rw [abs_mul, abs_of_pos (two_zpow_pos e), Nat.cast_natAbs, Int.cast_abs]

theorem IsRepresentable.signed (h : IsRepresentable q) (s : Sign) : IsRepresentable (signed s q) := by
  obtain ⟨k, e, hk, hleast, he, rfl⟩ := h
  cases s with
  | positive => exact ⟨k, e, hk, hleast, he, rfl⟩
  | negative =>
    refine ⟨-k, e, by rwa [abs_neg], hleast, he, ?_⟩
    rw [Number.signed, Int.cast_neg, neg_mul]

/-- Whole numbers of up to 53 bits, and the next one, are representable. -/
theorem isRepresentable_intCast {n : ℤ} (hn : |n| ≤ 2 ^ 53) : IsRepresentable n := by
  obtain hlt | heq := hn.lt_or_eq
  · exact ⟨n, 0, hlt, by norm_num, by norm_num, by simp⟩
  · obtain rfl | rfl := (abs_eq (by norm_num)).mp heq
    · exact ⟨2 ^ 52, 1, by norm_num, by norm_num, by norm_num, by norm_num⟩
    · exact ⟨-2 ^ 52, 1, by norm_num, by norm_num, by norm_num, by norm_num⟩

theorem isRepresentable_natCast {n : ℕ} (hn : n ≤ 2 ^ 53) : IsRepresentable n := by
  rw [← Int.cast_natCast]
  apply isRepresentable_intCast
  rw [abs_of_nonneg] <;> omega

/-! ### Representable numbers are kept -/

theorem signed_abs (q : ℚ) : ∃ s, q = signed s |q| := by
  obtain h | h := le_total 0 q
  · exact ⟨.positive, (abs_of_nonneg h).symm⟩
  · exact ⟨.negative, by rw [signed, abs_of_nonpos h, neg_neg]⟩

/-- A magnitude is rounded to itself: no other is as near. -/
theorem IsRounded.place?_eq {s : Sign} {u : UnpackedFloat} (h : IsRounded s q u)
    (hq : IsMagnitude q) : place? (ofParts u) = some (signed s q) := by
  obtain ⟨n, t, hrounding, hvalue⟩ := h
  have hn : q = n * 2 ^ t := by
    have hdist := (hrounding.dist_le hq).1
    rw [sub_self, abs_zero] at hdist
    exact sub_eq_zero.mp (abs_nonpos_iff.mp hdist)
  unfold place?
  cases hvalue with
  | zero hzero =>
    rw [parts_ofParts_zero, hn, hzero]
    cases s <;> simp [signed]
  | @finite m e hm hcanonical hvalue heven =>
    by_cases he : e ≤ 971
    · rw [hcanonical.parts_ofParts hm he, hn, ← hvalue]
    · have hinfinity := hcanonical.infinityPlace_le (by omega)
      rw [hvalue, ← hn] at hinfinity
      rw [ofParts_of_lt hm (by omega), parts_ofParts_infinity, hq.le.antisymm hinfinity]

theorem IsRepresentable.exists_rational? (h : IsRepresentable q) : ∃ x, rational? x = some q := by
  obtain ⟨s, hs⟩ := signed_abs q
  obtain ⟨k, e, -, -, hke⟩ := h.isMagnitude.exists_eq
  have hrounded := isRounded_round s k e
  rw [← hke] at hrounded
  have hplace := hrounded.place?_eq h.isMagnitude
  rw [← hs] at hplace
  exact ⟨_, rational?_of_place? hplace h.lt_infinityPlace⟩

/-- A number at the place of a double is rounded to that place. -/
theorem IsNearest.place?_eq (h : IsNearest q x) (hy : place? y = some q) : place? x = some q := by
  obtain ⟨r, hr, hnearest⟩ := h
  have hdist := (hnearest y q hy).1
  rw [sub_self, abs_zero] at hdist
  rw [hr, sub_eq_zero.mp (abs_nonpos_iff.mp hdist)]

/-- **A representable number is rounded to itself.** -/
theorem IsNearest.rational?_eq (h : IsNearest q x) (hq : IsRepresentable q) :
    rational? x = some q := by
  obtain ⟨y, hy⟩ := hq.exists_rational?
  exact rational?_of_place? (h.place?_eq (place?_of_rational? hy)) hq.lt_infinityPlace

/-! ### Order is kept -/

/-- **Of two numbers the greater is not rounded to the smaller place.**  Otherwise each of the two
would be at least as near to the place of the other, so the greater would lie below the middle between
the places and the smaller above. -/
theorem IsNearest.le_of_lt {q' r' : ℚ} (h : IsNearest q x) (h' : IsNearest q' y) (hlt : q < q')
    (hx : place? x = some r) (hy : place? y = some r') : r ≤ r' := by
  obtain ⟨p, hp, hnearest⟩ := h
  obtain ⟨p', hp', hnearest'⟩ := h'
  obtain rfl : r = p := Option.some.inj (hx.symm.trans hp)
  obtain rfl : r' = p' := Option.some.inj (hy.symm.trans hp')
  have hdist := (hnearest y r' hy).1
  have hdist' := (hnearest' x r hx).1
  by_contra! hgreater
  have hsquare : (q - r) ^ 2 ≤ (q - r') ^ 2 := sq_le_sq.mpr hdist
  have hsquare' : (q' - r') ^ 2 ≤ (q' - r) ^ 2 := sq_le_sq.mpr hdist'
  nlinarith

end RuleConditions.Number
