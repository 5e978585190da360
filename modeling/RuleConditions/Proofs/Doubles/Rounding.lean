import Mathlib.Algebra.Ring.Parity
import Mathlib.Tactic.FieldSimp
import RuleConditions.Proofs.Doubles.Order

/-!
# Rounding

`roundWithAccuracy` takes a coefficient, an exponent and what is known of the rest of the number:
whether there is a rest, and on which side of a half.  It shifts the coefficient to the exponent of a
double, keeping two bits that say the same of the rest so far (`Describes`, kept by every shift), rounds
to the nearest whole number and, where that gave one bit too many, shifts once more.

`IsRounded s q u` says that `u` is `q` rounded in this way; what that means for the doubles around is
not said here.  Products and quotients of finite numbers are rounded (`isRounded_mul`, `isRounded_div`).
-/

namespace RuleConditions.Number

open Float.Model (UnpackedFloat Format totalExponent)
open Float.Model.UnpackedFloat

/-! ### Whole numbers -/

/-- `n` is the whole number nearest to `x`, and of two such numbers the even one. -/
def IsHalfEven (x : ℚ) (n : ℕ) : Prop :=
  |x - n| ≤ 1 / 2 ∧ (|x - n| = 1 / 2 → Even n)

theorem IsHalfEven.dist_le {x : ℚ} {n : ℕ} (h : IsHalfEven x n) (j : ℕ) :
    |x - n| ≤ |x - j| ∧ (|x - n| = |x - j| → j = n ∨ Even n) := by
  by_cases hj : j = n
  · subst hj
    exact ⟨le_rfl, fun _ => .inl rfl⟩
  · have hone : (1 : ℚ) ≤ |(n : ℚ) - j| := by
      have : (1 : ℤ) ≤ |(n : ℤ) - j| := Int.one_le_abs (sub_ne_zero.mpr (by omega))
      exact_mod_cast this
    have htriangle : |(n : ℚ) - j| ≤ |x - n| + |x - j| := by
      have := abs_sub_le (n : ℚ) x j
      rwa [abs_sub_comm (n : ℚ) x] at this
    have hhalf := h.1
    refine ⟨by linarith, fun heq => .inr (h.2 ?_)⟩
    linarith

theorem IsHalfEven.le_of_lt {x : ℚ} {n k : ℕ} (h : IsHalfEven x n) (hx : x < k) : n ≤ k := by
  have hnear := (abs_le.mp h.1).1
  have : (n : ℚ) < (k + 1 : ℕ) := by
    push_cast
    linarith
  exact Nat.lt_succ_iff.mp (Nat.cast_lt.mp this)

theorem IsHalfEven.ge_of_ge {x : ℚ} {n k : ℕ} (h : IsHalfEven x n) (hx : (k : ℚ) ≤ x) : k ≤ n := by
  have hnear := (abs_le.mp h.1).2
  have : (k : ℚ) < (n + 1 : ℕ) := by
    push_cast
    linarith
  exact Nat.lt_succ_iff.mp (Nat.cast_lt.mp this)

/-! ### The rest in two bits -/

/-- What a coefficient and the two bits behind it tell of a number: the first bit is a half, the second
says whether anything is left below. -/
def Describes : ExtendedMantissa → ℚ → Prop
  | ⟨m, false, false⟩, x => x = m
  | ⟨m, false, true⟩, x => m < x ∧ x < m + 1 / 2
  | ⟨m, true, false⟩, x => x = m + 1 / 2
  | ⟨m, true, true⟩, x => m + 1 / 2 < x ∧ x < m + 1

theorem Describes.bounds {em : ExtendedMantissa} {x : ℚ} (h : Describes em x) :
    em.mantissa ≤ x ∧ x < em.mantissa + 1 := by
  obtain ⟨m, half, rest⟩ := em
  cases half <;> cases rest <;> simp only [Describes] at h ⊢ <;> constructor <;> linarith

theorem Describes.shiftRightOne {em : ExtendedMantissa} {x : ℚ} (h : Describes em x) :
    Describes em.shiftRightOne (x / 2) := by
  obtain ⟨m, half, rest⟩ := em
  -- the bit shifted out becomes the half, and the half joins the rest
  obtain ⟨k, rfl | rfl⟩ := m.even_or_odd'
  · have hbits : (⟨2 * k, half, rest⟩ : ExtendedMantissa).shiftRightOne =
        ⟨k, false, half || rest⟩ := by
      simp [ExtendedMantissa.shiftRightOne]
    rw [hbits]
    cases half <;> cases rest <;> simp only [Describes, Bool.or_false, Bool.or_true] at h ⊢ <;>
      push_cast at h <;> first | constructor <;> linarith | linarith
  · have hbits : (⟨2 * k + 1, half, rest⟩ : ExtendedMantissa).shiftRightOne =
        ⟨k, true, half || rest⟩ := by
      simp [ExtendedMantissa.shiftRightOne, Nat.add_mod]
      omega
    rw [hbits]
    cases half <;> cases rest <;> simp only [Describes, Bool.or_false, Bool.or_true] at h ⊢ <;>
      push_cast at h <;> first | constructor <;> linarith | linarith

theorem Describes.shiftRight {em : ExtendedMantissa} {x : ℚ} (h : Describes em x) (k : ℕ) :
    Describes (em >>> k) (x / 2 ^ k) := by
  show Describes (k.repeat ExtendedMantissa.shiftRightOne em) _
  induction k with
  | zero => simpa [Nat.repeat] using h
  | succ k ih =>
    rw [Nat.repeat, pow_succ, ← div_div]
    exact ih.shiftRightOne

theorem Describes.isHalfEven {em : ExtendedMantissa} {x : ℚ} (h : Describes em x) :
    IsHalfEven x em.roundedMantissa := by
  obtain ⟨m, half, rest⟩ := em
  cases half <;> cases rest <;> simp only [Describes, IsHalfEven, ExtendedMantissa.roundedMantissa,
    ExtendedMantissa.accuracy, Accuracy.roundToNearestEven] at h ⊢
  · subst h
    norm_num
  · obtain ⟨hlow, hhigh⟩ := h
    rw [abs_of_pos (by linarith)]
    exact ⟨by linarith, fun h => absurd h (by linarith)⟩
  · subst h
    obtain ⟨k, rfl | rfl⟩ := m.even_or_odd'
    · simp
    · have hodd : (2 * k + 1) % 2 = 1 := by omega
      rw [hodd]
      constructor
      · push_cast
        rw [abs_le]
        constructor <;> linarith
      · intro _
        exact ⟨k + 1, by omega⟩
  · obtain ⟨hlow, hhigh⟩ := h
    push_cast
    rw [abs_of_neg (by linarith)]
    exact ⟨by linarith, fun h => absurd h (by linarith)⟩

theorem describes_exact (m : ℕ) : Describes (.ofMantissaAndAccuracy m .exact) m := rfl

/-- What is left of a division, as two bits behind the quotient. -/
theorem describes_accuracyOfFraction (k : ℕ) {r d : ℕ} (hr : r < d) :
    Describes (.ofMantissaAndAccuracy k (accuracyOfFraction r d)) (k + (r : ℚ) / d) := by
  have hd : (0 : ℚ) < d := by exact_mod_cast r.zero_le.trans_lt hr
  unfold accuracyOfFraction
  by_cases hzero : r = 0
  · rw [if_pos hzero, hzero]
    simp [Describes, ExtendedMantissa.ofMantissaAndAccuracy]
  rw [if_neg hzero]
  obtain h | h | h := lt_trichotomy (2 * r) d
  · have hpos : (0 : ℚ) < r / d := div_pos (by exact_mod_cast Nat.pos_of_ne_zero hzero) hd
    have hlow : (r : ℚ) / d < 1 / 2 := by
      rw [div_lt_div_iff₀ hd (by norm_num)]
      exact_mod_cast (by omega : r * 2 < 1 * d)
    rw [Nat.compare_eq_lt.mpr h]
    exact ⟨by linarith, by linarith⟩
  · have hhalf : (r : ℚ) / d = 1 / 2 := by
      rw [div_eq_div_iff hd.ne' (by norm_num)]
      exact_mod_cast (by omega : r * 2 = 1 * d)
    rw [Nat.compare_eq_eq.mpr h, hhalf]
    rfl
  · have hhigh : 1 / 2 < (r : ℚ) / d := by
      rw [div_lt_div_iff₀ (by norm_num) hd]
      exact_mod_cast (by omega : 1 * d < r * 2)
    have hlt : (r : ℚ) / d < 1 := by
      rw [div_lt_one hd]
      exact_mod_cast hr
    rw [Nat.compare_eq_gt.mpr h]
    exact ⟨by linarith, by linarith⟩

theorem describes_fraction {m d : ℕ} (hd : 0 < d) :
    Describes (.ofMantissaAndAccuracy (m / d) (accuracyOfFraction (m % d) d)) ((m : ℚ) / d) := by
  have hdpos : (0 : ℚ) < d := by exact_mod_cast hd
  have hdivision : (m : ℚ) / d = (m / d : ℕ) + (m % d : ℕ) / d := by
    have : ((d * (m / d) + m % d : ℕ) : ℚ) = m := by rw [Nat.div_add_mod]
    rw [← this]
    push_cast
    rw [add_div, mul_div_cancel_left₀ _ hdpos.ne']
  rw [hdivision]
  exact describes_accuracyOfFraction _ (Nat.mod_lt m hd)

/-! ### The exponent of a rounded number -/

/-- The exponent of the double that a number with this coefficient and exponent is rounded to. -/
def roundedExponent (m : ℕ) (e : ℤ) : ℤ := max (m.log2 + e - 52) (-1074)

theorem targetExponent_binary64 (t : ℤ) :
    Format.binary64.targetExponent t = max (t - 53) (-1074) := rfl

theorem targetExponent_totalExponent (m : ℕ) (e : ℤ) :
    Format.binary64.targetExponent (totalExponent m e) = roundedExponent m e := by
  rw [targetExponent_binary64, totalExponent, roundedExponent]
  congr 1
  omega

theorem shiftToTargetExponent_eq (m : ℕ) (e : ℤ) (a : Accuracy) :
    shiftToTargetExponent .binary64 m e a =
      (ExtendedMantissa.ofMantissaAndAccuracy m a >>> (roundedExponent m e - e).toNat,
        e + (roundedExponent m e - e).toNat) := by
  rw [← targetExponent_totalExponent]
  rfl

/-- A coefficient that fits is not shifted. -/
theorem shiftToTargetExponent_of_lt {n : ℕ} {t : ℤ} (hn : n < 2 ^ 53) (ht : -1074 ≤ t) :
    shiftToTargetExponent .binary64 n t .exact = (⟨n, false, false⟩, t) := by
  have hlog : n.log2 ≤ 52 := by
    by_cases hzero : n = 0
    · rw [hzero]
      decide
    · have := (Nat.log2_lt hzero).mpr hn
      omega
  have hshift : (roundedExponent n t - t).toNat = 0 := by
    rw [roundedExponent]
    omega
  rw [shiftToTargetExponent_eq, hshift]
  exact Prod.ext rfl (by simp)

/-- Rounding up may give one bit too many, and then the coefficient is a power of two. -/
theorem shiftToTargetExponent_of_eq {t : ℤ} (ht : -1074 ≤ t) :
    shiftToTargetExponent .binary64 (2 ^ 53) t .exact = (⟨2 ^ 52, false, false⟩, t + 1) := by
  have hshift : (roundedExponent (2 ^ 53) t - t).toNat = 1 := by
    rw [roundedExponent, Nat.log2_two_pow]
    omega
  rw [shiftToTargetExponent_eq, hshift]
  rfl

/-! ### Rounded numbers -/

/-- `q` rounded to a coefficient `n` for the exponent `t`, the least one for which the coefficient has
no more bits than a double has. -/
structure IsRounding (q : ℚ) (n : ℕ) (t : ℤ) : Prop where
  halfEven : IsHalfEven (q / 2 ^ t) n
  least_le : -1074 ≤ t
  full : t = -1074 ∨ 2 ^ 52 * 2 ^ t ≤ q

/-- The parts of `± n · 2 ^ t`.  They are canonical and keep an even coefficient even. -/
inductive HasValue (s : Sign) (n : ℕ) (t : ℤ) : UnpackedFloat → Prop
  | zero (hn : n = 0) : HasValue s n t (.zero s)
  | finite {m : ℕ} {e : ℤ} (hm : 0 < m) (canonical : IsCanonical m e)
      (value : (m : ℚ) * 2 ^ e = n * 2 ^ t) (even : Even n → Even m) :
      HasValue s n t (.finite s m e hm)

/-- `q` with the sign `s`, rounded. -/
def IsRounded (s : Sign) (q : ℚ) (u : UnpackedFloat) : Prop :=
  ∃ n t, IsRounding q n t ∧ HasValue s n t u

/-- The first shift brings the exponent in range, and the second makes up for a carry. -/
theorem roundWithAccuracy_eq {s : Sign} {m : ℕ} {e : ℤ} {a : Accuracy} {n : ℕ} {t : ℤ}
    (hn : (shiftToTargetExponent .binary64 m e a).1.roundedMantissa = n)
    (ht : (shiftToTargetExponent .binary64 m e a).2 = t) :
    roundWithAccuracy .binary64 s m e a =
      if h : (shiftToTargetExponent .binary64 n t .exact).1.mantissa = 0 then .zero s
      else .finite s _ (shiftToTargetExponent .binary64 n t .exact).2 (Nat.pos_of_ne_zero h) := by
  subst hn ht
  rfl

theorem hasValue_roundWithAccuracy {s : Sign} {m : ℕ} {e : ℤ} {a : Accuracy} {n : ℕ} {t : ℤ}
    (hn : (shiftToTargetExponent .binary64 m e a).1.roundedMantissa = n)
    (ht : (shiftToTargetExponent .binary64 m e a).2 = t) (hle : n ≤ 2 ^ 53)
    (hleast : -1074 ≤ t) (hfull : 2 ^ 52 ≤ n ∨ t = -1074) :
    HasValue s n t (roundWithAccuracy .binary64 s m e a) := by
  rw [roundWithAccuracy_eq hn ht]
  -- the second shift does nothing, unless rounding up has reached the next power of two
  by_cases hzero : n = 0
  · subst hzero
    rw [shiftToTargetExponent_of_lt (by decide) hleast]
    exact .zero rfl
  obtain hlt | rfl := hle.lt_or_eq
  · rw [shiftToTargetExponent_of_lt hlt hleast, dif_neg hzero]
    exact .finite _ ⟨hlt, hleast, hfull⟩ rfl id
  · rw [shiftToTargetExponent_of_eq hleast, dif_neg (Nat.two_pow_pos 52).ne']
    have hcanonical : IsCanonical (2 ^ 52) (t + 1) := ⟨by decide, by omega, .inl le_rfl⟩
    refine .finite _ hcanonical ?_ fun _ => (by decide : Even (2 ^ 52))
    rw [zpow_add_one₀ (by norm_num)]
    push_cast
    ring

theorem two_pow_mul_zpow (k : ℕ) (e : ℤ) : (2 : ℚ) ^ k * 2 ^ e = 2 ^ (k + e) := by
  rw [← zpow_natCast, ← zpow_add₀ (by norm_num)]

theorem shiftLeft_mul_zpow (m k : ℕ) (e : ℤ) :
    ((m <<< k : ℕ) : ℚ) * 2 ^ (e - k) = m * 2 ^ e := by
  rw [Nat.shiftLeft_eq, Nat.cast_mul, Nat.cast_pow, Nat.cast_ofNat, mul_assoc, two_pow_mul_zpow]
  congr 2
  omega

/-- A number with a full coefficient is no less than the least full coefficient with its exponent. -/
theorem full_roundedExponent {m : ℕ} {e : ℤ} {x : ℚ} (hm : m ≤ x) (he : e ≤ roundedExponent m e) :
    roundedExponent m e = -1074 ∨ 2 ^ 52 * 2 ^ roundedExponent m e ≤ x * 2 ^ e := by
  by_cases hleast : roundedExponent m e = -1074
  · exact .inl hleast
  right
  have ht : roundedExponent m e = m.log2 + e - 52 := by
    rw [roundedExponent] at hleast ⊢
    omega
  have hself : (2 : ℚ) ^ m.log2 ≤ m := by
    have : m ≠ 0 := by
      rintro rfl
      rw [Nat.log2_zero] at ht
      omega
    exact_mod_cast Nat.log2_self_le this
  calc (2 : ℚ) ^ 52 * 2 ^ roundedExponent m e = 2 ^ m.log2 * 2 ^ e := by
        rw [two_pow_mul_zpow, two_pow_mul_zpow, ht]
        congr 1
        omega
    _ ≤ x * 2 ^ e := by
        gcongr
        linarith

theorem lt_roundedExponent {m : ℕ} {e : ℤ} {x : ℚ} (hm : x < m + 1) :
    x * 2 ^ e < 2 ^ 53 * 2 ^ roundedExponent m e := by
  have hlog : (m : ℚ) + 1 ≤ 2 ^ (m.log2 + 1) := by
    have : m + 1 ≤ 2 ^ (m.log2 + 1) := Nat.lt_log2_self
    exact_mod_cast this
  calc x * 2 ^ e < 2 ^ (m.log2 + 1) * 2 ^ e := by
        gcongr
        linarith
    _ = 2 ^ (((m.log2 + 1 : ℕ) : ℤ) + e) := two_pow_mul_zpow _ _
    _ ≤ 2 ^ (((53 : ℕ) : ℤ) + roundedExponent m e) := by
        refine zpow_le_zpow_right₀ (by norm_num) ?_
        rw [roundedExponent]
        omega
    _ = 2 ^ 53 * 2 ^ roundedExponent m e := (two_pow_mul_zpow _ _).symm

theorem isRounded_roundWithAccuracy (s : Sign) {m : ℕ} {e : ℤ} {a : Accuracy} {x : ℚ}
    (h : Describes (.ofMantissaAndAccuracy m a) x) (he : e ≤ roundedExponent m e) :
    IsRounded s (x * 2 ^ e) (roundWithAccuracy .binary64 s m e a) := by
  have hscale : x * 2 ^ e / 2 ^ roundedExponent m e = x / 2 ^ (roundedExponent m e - e).toNat := by
    have hexponent : (2 : ℚ) ^ roundedExponent m e = 2 ^ e * 2 ^ (roundedExponent m e - e).toNat := by
      rw [mul_comm, two_pow_mul_zpow]
      congr 1
      omega
    rw [hexponent, mul_comm x, mul_div_mul_left _ _ (two_zpow_pos e).ne']
  have hmantissa : (ExtendedMantissa.ofMantissaAndAccuracy m a).mantissa = m := by
    cases a with
    | exact => rfl
    | inexact o => cases o <;> rfl
  have hbounds := h.bounds
  rw [hmantissa] at hbounds
  have hleast : -1074 ≤ roundedExponent m e := le_max_right _ _
  have hfull := full_roundedExponent hbounds.1 he
  have hhalfEven := (h.shiftRight (roundedExponent m e - e).toNat).isHalfEven
  rw [← hscale] at hhalfEven
  -- the whole number is that of `x` over the power of two by which the coefficient was shifted, and its
  -- bounds are those of `x`
  refine ⟨_, _, ⟨hhalfEven, hleast, hfull⟩, hasValue_roundWithAccuracy ?_ ?_ ?_ hleast ?_⟩
  · rw [shiftToTargetExponent_eq]
  · rw [shiftToTargetExponent_eq]
    show e + _ = _
    omega
  · apply hhalfEven.le_of_lt
    rw [div_lt_iff₀ (two_zpow_pos _)]
    exact_mod_cast lt_roundedExponent hbounds.2
  · refine hfull.symm.imp_left fun h => hhalfEven.ge_of_ge ?_
    rw [← le_div_iff₀ (two_zpow_pos _)] at h
    exact_mod_cast h

/-! ### A coefficient and an exponent -/

/-- What is no more than half of the least positive double is rounded to zero. -/
theorem isRounded_zero {q : ℚ} (h0 : 0 ≤ q) (hq : q ≤ 2 ^ (-1075 : ℤ)) (s : Sign) :
    IsRounded s q (.zero s) := by
  have hhalf : q / 2 ^ (-1074 : ℤ) ≤ 1 / 2 := by
    rw [div_le_iff₀ (two_zpow_pos _)]
    calc q ≤ 2 ^ (-1075 : ℤ) := hq
      _ = 1 / 2 * 2 ^ (-1074 : ℤ) := by
        rw [show (-1074 : ℤ) = -1075 + 1 from rfl, zpow_add_one₀ (by norm_num)]
        ring
  refine ⟨0, -1074, ⟨⟨?_, fun _ => by decide⟩, le_rfl, .inl rfl⟩, .zero rfl⟩
  rwa [Nat.cast_zero, sub_zero, abs_of_nonneg (by positivity)]

theorem log2_shiftLeft {m : ℕ} (hm : 0 < m) (k : ℕ) : (m <<< k).log2 = m.log2 + k := by
  have hlow : 2 ^ m.log2 ≤ m := Nat.log2_self_le hm.ne'
  have hhigh : m < 2 ^ (m.log2 + 1) := Nat.lt_log2_self
  rw [Nat.shiftLeft_eq, Nat.log2_eq_iff (by positivity)]
  constructor
  · rw [pow_add]
    gcongr
  · rw [add_right_comm, pow_add]
    gcongr

/-- Before a coefficient is rounded it is given as many bits as a double has. -/
theorem round_eq (s : Sign) (m : ℕ) (e : ℤ) :
    UnpackedFloat.round .binary64 s m e = roundWithAccuracy .binary64 s
      (m <<< (e - roundedExponent m e).toNat) (e - (e - roundedExponent m e).toNat) .exact := by
  rw [← targetExponent_totalExponent]
  rfl

theorem shiftRight_zero (k : ℕ) :
    (⟨0, false, false⟩ : ExtendedMantissa) >>> k = ⟨0, false, false⟩ := by
  show k.repeat ExtendedMantissa.shiftRightOne _ = _
  induction k with
  | zero => rfl
  | succ k ih =>
    rw [Nat.repeat, ih]
    rfl

theorem roundWithAccuracy_zero (s : Sign) (e : ℤ) :
    roundWithAccuracy .binary64 s 0 e .exact = .zero s := by
  have hshift (t : ℤ) : (shiftToTargetExponent .binary64 0 t .exact).1 = ⟨0, false, false⟩ := by
    rw [shiftToTargetExponent_eq]
    exact shiftRight_zero _
  have hrounded : (shiftToTargetExponent .binary64 0 e .exact).1.roundedMantissa = 0 := by
    rw [hshift]
    rfl
  rw [roundWithAccuracy_eq hrounded rfl, dif_pos]
  rw [hshift]

theorem isRounded_round (s : Sign) (m : ℕ) (e : ℤ) :
    IsRounded s (m * 2 ^ e) (UnpackedFloat.round .binary64 s m e) := by
  rw [round_eq]
  generalize hk : (e - roundedExponent m e).toNat = k
  obtain rfl | hm := m.eq_zero_or_pos
  · rw [Nat.zero_shiftLeft, roundWithAccuracy_zero, Nat.cast_zero, zero_mul]
    exact isRounded_zero le_rfl (two_zpow_pos _).le s
  · rw [← shiftLeft_mul_zpow m k e]
    refine isRounded_roundWithAccuracy s (describes_exact _) ?_
    rw [roundedExponent, log2_shiftLeft hm]
    rw [roundedExponent] at hk
    omega

/-! ### Products and quotients -/

theorem isRounded_mul (s s' : Sign) {m m' : ℕ} {e e' : ℤ} (hm : 0 < m) (hm' : 0 < m')
    (h : e + e' ≤ roundedExponent (m * m') (e + e')) :
    IsRounded (s * s') (m * 2 ^ e * (m' * 2 ^ e'))
      (mul .binary64 (.finite s m e hm) (.finite s' m' e' hm')) := by
  have hvalue : (m : ℚ) * 2 ^ e * (m' * 2 ^ e') = (m * m' : ℕ) * 2 ^ (e + e') := by
    rw [zpow_add₀ (by norm_num)]
    push_cast
    ring
  rw [hvalue]
  exact isRounded_roundWithAccuracy (s * s') (describes_exact _) h

/-- The coefficient of a quotient has all the bits that rounding asks for. -/
theorem le_roundedExponent_quotient {m m' k : ℕ} {e : ℤ} (hm : 0 < m) (hm' : 0 < m')
    (h : e ≤ -1074 ∨ m'.log2 + 53 ≤ m.log2 + k) : e ≤ roundedExponent (m <<< k / m') e := by
  obtain h | h := h
  · exact h.trans (le_max_right _ _)
  have hquotient : 2 ^ 52 ≤ m <<< k / m' := by
    rw [Nat.le_div_iff_mul_le hm']
    calc 2 ^ 52 * m' ≤ 2 ^ 52 * 2 ^ (m'.log2 + 1) := by
          gcongr
          exact Nat.lt_log2_self.le
      _ = 2 ^ (m'.log2 + 53) := by
          rw [← pow_add]
          congr 1
          omega
      _ ≤ 2 ^ (m.log2 + k) := Nat.pow_le_pow_right (by norm_num) h
      _ ≤ m <<< k := by
          rw [Nat.shiftLeft_eq, pow_add]
          gcongr
          exact Nat.log2_self_le hm.ne'
  have hlog : 52 ≤ (m <<< k / m').log2 := by
    rw [Nat.le_log2 (by omega)]
    exact hquotient
  rw [roundedExponent]
  omega

theorem isRounded_div (s s' : Sign) {m m' : ℕ} {e e' : ℤ} (hm : 0 < m) (hm' : 0 < m') :
    IsRounded (s / s') (m * 2 ^ e / (m' * 2 ^ e'))
      (div .binary64 (.finite s m e hm) (.finite s' m' e' hm')) := by
  -- `t` is the exponent of the quotient, and `k` counts the bits that the dividend is given for it
  obtain ⟨t, ht⟩ : ∃ t, min (e - e') (Format.binary64.targetExponent
      (totalExponent m e - totalExponent m' e')) = t := ⟨_, rfl⟩
  obtain ⟨k, hk⟩ : ∃ k, (e - e' - t).toNat = k := ⟨_, rfl⟩
  have hdiv : div .binary64 (.finite s m e hm) (.finite s' m' e' hm') =
      roundWithAccuracy .binary64 (s / s') (m <<< k / m') t
        (accuracyOfFraction (m <<< k % m') m') := by
    subst hk ht
    rfl
  have hvalue : (m : ℚ) * 2 ^ e / (m' * 2 ^ e') = (m <<< k : ℕ) / m' * 2 ^ t := by
    have hexponent : (2 : ℚ) ^ e = 2 ^ k * 2 ^ t * 2 ^ e' := by
      rw [two_pow_mul_zpow, ← zpow_add₀ (by norm_num)]
      congr 1
      omega
    have hm' : (m' : ℚ) ≠ 0 := by exact_mod_cast hm'.ne'
    rw [Nat.shiftLeft_eq, hexponent]
    push_cast
    field_simp
  rw [hdiv, hvalue]
  refine isRounded_roundWithAccuracy _ (describes_fraction hm') (le_roundedExponent_quotient hm hm' ?_)
  rw [targetExponent_binary64, totalExponent, totalExponent] at ht
  omega

end RuleConditions.Number
