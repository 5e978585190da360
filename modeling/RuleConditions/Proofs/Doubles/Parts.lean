import Mathlib.Algebra.Order.Field.Rat
import RuleConditions.Number.Basic

/-!
# Taking doubles apart and putting them together

A finite double is `± m · 2 ^ e` with a coefficient below `2 ^ 53`; it has the full 53 bits unless the
exponent is the least there is (`IsCanonical`).  Whatever `parts` finds has this form
(`isCanonical_of_parts`), and what has this form is found again: `ofParts` loses nothing but what is too
great for a double, which becomes an infinity.  There is nothing in a double but its parts
(`ofParts_parts`).
-/

namespace RuleConditions.Number

open Float.Model (UnpackedFloat Format)
open Float.Model.UnpackedFloat

/-! ### Coefficients and exponents -/

/-- The coefficients and exponents of finite doubles; an exponent above 971 is one too great. -/
structure IsCanonical (m : Nat) (e : Int) : Prop where
  lt : m < 2 ^ 53
  least_le : -1074 ≤ e
  full : 2 ^ 52 ≤ m ∨ e = -1074

theorem exponentBias_eq : (Format.binary64.exponentBias : Int) = 1023 := by decide

theorem toNat_append {k n : Nat} (u : BitVec k) (v : BitVec n) :
    (u ++ v).toNat = u.toNat * 2 ^ n + v.toNat := by
  rw [BitVec.toNat_append, ← Nat.shiftLeft_add_eq_or_of_lt v.isLt, Nat.shiftLeft_eq]

/-- A stored coefficient with its leading bit, which is not stored. -/
theorem toNat_one_append (m : BitVec 52) : (1#1 ++ m).toNat = 2 ^ 52 + m.toNat :=
  toNat_append 1#1 m

theorem log2_add_one_eq_iff {m : Nat} (hm : 0 < m) :
    m.log2 + 1 = 53 ↔ 2 ^ 52 ≤ m ∧ m < 2 ^ 53 := by
  rw [show m.log2 + 1 = 53 ↔ m.log2 = 52 by omega, Nat.log2_eq_iff (by omega)]

theorem isCanonical_of_parts {x : Float} {s : Sign} {m : Nat} {e : Int} {h : 0 < m}
    (hx : parts x = .finite s m e h) : IsCanonical m e ∧ e ≤ 971 := by
  unfold parts Float.Model.unpack unpack at hx
  dsimp only at hx
  generalize x.toModel.toBits.toBitVec = bits at hx
  have hm : (@unpackMantissa .binary64 bits).toNat < 2 ^ 52 := BitVec.isLt _
  have he : (@unpackExponent .binary64 bits).toNat < 2 ^ 11 := BitVec.isLt _
  by_cases hfinite : @unpackExponent .binary64 bits = -1#11
  -- an exponent of ones only: no finite double
  · rw [if_pos hfinite] at hx
    by_cases hinfinity : @unpackMantissa .binary64 bits = 0#52
    · rw [if_pos hinfinity] at hx
      cases hx
    · rw [if_neg hinfinity] at hx
      cases hx
  · rw [if_neg hfinite] at hx
    by_cases hleast : @unpackExponent .binary64 bits = 0#11
    · rw [if_pos hleast] at hx
      by_cases hzero : @unpackMantissa .binary64 bits = 0#52
      · rw [dif_pos hzero] at hx
        cases hx
      · rw [dif_neg hzero] at hx
        cases hx
        rw [hleast]
        exact ⟨⟨by omega, by decide, .inr (by decide)⟩, by decide⟩
    · rw [if_neg hleast] at hx
      cases hx
      have hlow : (@unpackExponent .binary64 bits).toNat ≠ 0 :=
        fun h => hleast (BitVec.eq_of_toNat_eq h)
      have hhigh : (@unpackExponent .binary64 bits).toNat ≠ 2047 :=
        fun h => hfinite (BitVec.eq_of_toNat_eq h)
      rw [toNat_one_append, exponentBias_eq]
      exact ⟨⟨by omega, by omega, .inl (by omega)⟩, by omega⟩

/-! ### Putting parts together -/

/-- The double with these parts. -/
def ofParts (u : UnpackedFloat) : Float := .ofModel (.pack u)

theorem parts_ofParts_eq (u : UnpackedFloat) :
    parts (ofParts u) = unpack .binary64 (pack .binary64 u) := rfl

@[simp] theorem ofBitVec_toBitVec (s : Sign) : Sign.ofBitVec s.toBitVec = s := by
  cases s <;> rfl

theorem unpackSign_packComponents (s : Sign) (e : BitVec 11) (m : BitVec 52) :
    unpackSign (packComponents .binary64 s e m) = s.toBitVec := by
  apply BitVec.eq_of_getLsbD_eq
  intro i hi
  obtain rfl : i = 0 := by omega
  have h : (s.toBitVec ++ e ++ m).getLsbD 63 = s.toBitVec.getLsbD 0 := by
    rw [BitVec.getLsbD_append, if_neg (by decide), BitVec.getLsbD_append, if_neg (by decide)]
  unfold unpackSign packComponents
  rw [BitVec.getLsbD_cast, BitVec.getLsbD_extractLsb]
  simp [h]

theorem parts_ofParts_infinity (s : Sign) : parts (ofParts (.infinity s)) = .infinity s := by
  cases s <;> rfl

theorem parts_ofParts_zero (s : Sign) : parts (ofParts (.zero s)) = .zero s := by
  cases s <;> rfl

theorem parts_ofParts_notANumber : parts (ofParts .notANumber) = .notANumber := rfl

/-- Parts with too great an exponent are put together as an infinity. -/
theorem ofParts_of_lt {m : Nat} {e : Int} (hm : 0 < m) (he : 971 < e) (s : Sign) :
    ofParts (.finite s m e hm) = ofParts (.infinity s) := by
  have hpack : pack .binary64 (.finite s m e hm) = pack .binary64 (.infinity s) := by
    unfold pack
    dsimp only
    rw [exponentBias_eq, if_pos (by omega)]
  unfold ofParts Float.Model.pack
  congr 3

/-- The stored exponent is the exponent shifted so that the least one above zero is 1. -/
theorem toNat_storedExponent {e : Int} (hleast : -1074 ≤ e) (he : e ≤ 971) :
    (BitVec.ofNat 11 (e + 1075).toNat).toNat = (e + 1075).toNat := by
  rw [BitVec.toNat_ofNat]
  omega

theorem pack_finite {m : Nat} {e : Int} (hm : 0 < m) (hleast : -1074 ≤ e) (he : e ≤ 971) (s : Sign) :
    pack .binary64 (.finite s m e hm) =
      if m.log2 + 1 = 53 then packComponents .binary64 s (.ofNat 11 (e + 1075).toNat) (.ofNat 52 m)
      else packComponents .binary64 s 0#11 (.ofNat 52 m) := by
  have hexponent : (e + Format.binary64.exponentBias + (52 : Nat)).toNat = (e + 1075).toNat := by
    rw [exponentBias_eq]
    omega
  unfold pack
  dsimp only
  rw [hexponent, if_neg (by omega)]
  rfl

theorem finite_congr {s s' : Sign} {m m' : Nat} {e e' : Int} {hm : 0 < m} {hm' : 0 < m'}
    (hs : s = s') (h : m = m') (he : e = e') :
    UnpackedFloat.finite s m e hm = .finite s' m' e' hm' := by
  subst hs h he
  rfl

/-- All bits of the coefficient but the leading one are stored. -/
theorem parts_ofParts_of_full {m : Nat} {e : Int} (hfull : 2 ^ 52 ≤ m) (hlt : m < 2 ^ 53)
    (hleast : -1074 ≤ e) (he : e ≤ 971) (hm : 0 < m) (s : Sign) :
    parts (ofParts (.finite s m e hm)) = .finite s m e hm := by
  have hstored := toNat_storedExponent hleast he
  have hfinite : BitVec.ofNat 11 (e + 1075).toNat ≠ -1#11 := by
    rw [← BitVec.toNat_ne_iff_ne, hstored]
    show _ ≠ 2047
    omega
  have hnormal : BitVec.ofNat 11 (e + 1075).toNat ≠ 0#11 := by
    rw [← BitVec.toNat_ne_iff_ne, hstored]
    show _ ≠ 0
    omega
  have hcoefficient : (1#1 ++ BitVec.ofNat 52 m).toNat = m := by
    rw [toNat_one_append, BitVec.toNat_ofNat]
    omega
  rw [parts_ofParts_eq, pack_finite hm hleast he, if_pos ((log2_add_one_eq_iff hm).mpr ⟨hfull, hlt⟩)]
  unfold unpack
  dsimp only
  rw [unpackExponent_packComponents, if_neg hfinite, if_neg hnormal]
  apply finite_congr
  · rw [unpackSign_packComponents, ofBitVec_toBitVec]
  · rw [unpackMantissa_packComponents, hcoefficient]
  · rw [hstored, exponentBias_eq]
    omega

/-- Below the full number of bits the stored exponent is zero and the coefficient is stored as it is. -/
theorem parts_ofParts_of_not_full {m : Nat} (hlt : m < 2 ^ 52) (hm : 0 < m) (s : Sign) :
    parts (ofParts (.finite s m (-1074) hm)) = .finite s m (-1074) hm := by
  have hcoefficient : (BitVec.ofNat 52 m).toNat = m := by
    rw [BitVec.toNat_ofNat]
    omega
  have hzero : BitVec.ofNat 52 m ≠ 0#52 := by
    rw [← BitVec.toNat_ne_iff_ne, hcoefficient]
    exact hm.ne'
  have hlog : ¬ m.log2 + 1 = 53 := fun h => by
    have := (log2_add_one_eq_iff hm).mp h
    omega
  rw [parts_ofParts_eq, pack_finite hm (by decide) (by decide), if_neg hlog]
  unfold unpack
  dsimp only
  rw [unpackExponent_packComponents, if_neg (by decide), if_pos rfl,
    dif_neg (by rwa [unpackMantissa_packComponents])]
  apply finite_congr
  · rw [unpackSign_packComponents, ofBitVec_toBitVec]
  · rw [unpackMantissa_packComponents, hcoefficient]
  · rw [exponentBias_eq]
    rfl

theorem IsCanonical.parts_ofParts {m : Nat} {e : Int} (h : IsCanonical m e) (hm : 0 < m)
    (he : e ≤ 971) (s : Sign) : parts (ofParts (.finite s m e hm)) = .finite s m e hm := by
  by_cases hfull : 2 ^ 52 ≤ m
  · exact parts_ofParts_of_full hfull h.lt h.least_le he hm s
  · obtain rfl : e = -1074 := h.full.resolve_left hfull
    exact parts_ofParts_of_not_full (by omega) hm s

/-! ### Nothing else is in a double -/

theorem toBitVec_ofBitVec (v : BitVec 1) : (Sign.ofBitVec v).toBitVec = v := by
  revert v
  decide

/-- A word of bits is its three fields. -/
theorem packComponents_unpack (b : BitVec 64) :
    packComponents .binary64 (Sign.ofBitVec (@unpackSign .binary64 b)) (@unpackExponent .binary64 b)
      (@unpackMantissa .binary64 b) = b := by
  have hsign : (@unpackSign .binary64 b).toNat = b.toNat / 2 ^ 63 % 2 := by
    unfold unpackSign
    rw [BitVec.toNat_cast, BitVec.extractLsb_toNat, Nat.shiftRight_eq_div_pow]
    rfl
  have hexponent : (@unpackExponent .binary64 b).toNat = b.toNat / 2 ^ 52 % 2 ^ 11 := by
    unfold unpackExponent
    rw [BitVec.toNat_cast, BitVec.extractLsb_toNat, Nat.shiftRight_eq_div_pow]
    rfl
  have hmantissa : (@unpackMantissa .binary64 b).toNat = b.toNat % 2 ^ 52 := by
    unfold unpackMantissa
    rw [BitVec.toNat_cast, BitVec.extractLsb_toNat, Nat.shiftRight_zero]
    rfl
  have hword := b.isLt
  apply BitVec.eq_of_toNat_eq
  unfold packComponents
  rw [toBitVec_ofBitVec, toNat_append, toNat_append, hsign, hexponent, hmantissa]
  show (b.toNat / 2 ^ 63 % 2 * 2 ^ 11 + b.toNat / 2 ^ 52 % 2 ^ 11) * 2 ^ 52 + b.toNat % 2 ^ 52 = b.toNat
  omega

/-- A valid word of bits is put together again from its parts. -/
theorem pack_unpack {b : BitVec 64} (hb : Format.binary64.Valid b) :
    pack .binary64 (unpack .binary64 b) = b := by
  have hword := packComponents_unpack b
  have hm : (@unpackMantissa .binary64 b).toNat < 2 ^ 52 := BitVec.isLt _
  have he : (@unpackExponent .binary64 b).toNat < 2 ^ 11 := BitVec.isLt _
  unfold unpack
  dsimp only
  by_cases hones : @unpackExponent .binary64 b = -1#11
  · rw [if_pos hones]
    by_cases hinfinity : @unpackMantissa .binary64 b = 0#52
    · rw [if_pos hinfinity]
      rwa [hones, hinfinity] at hword
    · rw [if_neg hinfinity]
      exact (hb.eq_packedNaN hones hinfinity).symm
  · rw [if_neg hones]
    by_cases hleast : @unpackExponent .binary64 b = 0#11
    · rw [if_pos hleast]
      by_cases hzero : @unpackMantissa .binary64 b = 0#52
      · rw [dif_pos hzero]
        rwa [hleast, hzero] at hword
      · rw [dif_neg hzero]
        have hlog : ¬ (@unpackMantissa .binary64 b).toNat.log2 + 1 = 53 := fun h => by
          have hpos : 0 < (@unpackMantissa .binary64 b).toNat :=
            Nat.pos_of_ne_zero fun h => hzero (BitVec.eq_of_toNat_eq h)
          have := (log2_add_one_eq_iff hpos).mp h
          omega
        rw [hleast, pack_finite _ (by decide) (by decide), if_neg hlog, BitVec.ofNat_toNat,
          BitVec.setWidth_eq]
        rwa [hleast] at hword
    · rw [if_neg hleast]
      have hlow : (@unpackExponent .binary64 b).toNat ≠ 0 :=
        fun h => hleast (BitVec.eq_of_toNat_eq h)
      have hhigh : (@unpackExponent .binary64 b).toNat ≠ 2047 :=
        fun h => hones (BitVec.eq_of_toNat_eq h)
      have hstored : (1#1 ++ @unpackMantissa .binary64 b).toNat =
          2 ^ 52 + (@unpackMantissa .binary64 b).toNat := toNat_one_append _
      have hlog : (1#1 ++ @unpackMantissa .binary64 b).toNat.log2 + 1 = 53 :=
        (log2_add_one_eq_iff (by omega)).mpr (by omega)
      have hcoefficient : BitVec.ofNat 52 (1#1 ++ @unpackMantissa .binary64 b).toNat =
          @unpackMantissa .binary64 b := by
        apply BitVec.eq_of_toNat_eq
        rw [BitVec.toNat_ofNat, hstored, Nat.add_mod_left, Nat.mod_eq_of_lt hm]
      have hexponent (k : Nat) : ((k : Int) - (1023 + (52 : Nat)) + 1075).toNat = k := by omega
      rw [exponentBias_eq, pack_finite _ (by omega) (by omega), if_pos hlog, hcoefficient, hexponent,
        BitVec.ofNat_toNat, BitVec.setWidth_eq]
      exact hword

/-- **A double is its parts**, NaN included, since there is only one. -/
theorem ofParts_parts (x : Float) : ofParts (parts x) = x := by
  obtain ⟨⟨bits, hvalid⟩⟩ := x
  unfold ofParts Float.Model.pack
  congr 3
  exact pack_unpack hvalid

theorem eq_of_parts_eq {x y : Float} (h : parts x = parts y) : x = y := by
  rw [← ofParts_parts x, h, ofParts_parts y]

end RuleConditions.Number
