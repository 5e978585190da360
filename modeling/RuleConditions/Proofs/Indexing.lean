import RuleConditions.Proofs.Doubles.Whole
import RuleConditions.Proofs.Grouping

/-!
# Items of arrays

An index gives the item whose place is the number in the brackets, exactly (`outcome_index`).
Every other number gives `undefined`: a fraction, a negative number, NaN, an infinity, or a whole
number beyond the end.

One number counts as an index that it is not: `2 ^ 64` as the greatest one.  Every other index is
the number itself (`toIndex_eq_some_iff_or`, `toIndex_iff_rational?_iff`), and no array is long enough
to show the difference.
-/

namespace RuleConditions

/-! ### Doubles as indices -/

namespace Number

open Float.Model (UnpackedFloat)
open Float.Model.UnpackedFloat

/-- An index is the number itself, or else the greatest one for the number behind it. -/
theorem toIndex_eq_some_iff_or {i : ℕ} (hi : i < indexBound) (x : Float) :
    toIndex x = some i ↔
      rational? x = some (i : ℚ) ∨ i + 1 = indexBound ∧ rational? x = some (indexBound : ℚ) := by
  unfold toIndex rational?
  cases parts x with
  | notANumber => exact iff_of_false nofun nofun
  | infinity s => exact iff_of_false nofun nofun
  | zero s =>
    show some 0 = some i ↔ some (0 : ℚ) = some (i : ℚ) ∨
      i + 1 = indexBound ∧ some (0 : ℚ) = some (indexBound : ℚ)
    rw [Option.some_inj, Option.some_inj, Option.some_inj, eq_comm, eq_comm (a := (0 : ℚ)),
      eq_comm (a := (0 : ℚ)), Nat.cast_eq_zero, Nat.cast_eq_zero]
    omega
  | finite s m e hm => cases s with
    | negative =>
      have hneg : ((Sign.negative.apply m : ℤ) : ℚ) * 2 ^ e < 0 := by
        rw [apply_mul_eq_signed]
        exact neg_neg_of_pos (magnitude_pos hm e)
      have hne (n : ℕ) : some (((Sign.negative.apply m : ℤ) : ℚ) * 2 ^ e) ≠ some (n : ℚ) := by
        intro h
        rw [Option.some.inj h] at hneg
        exact hneg.not_ge (Nat.cast_nonneg n)
      exact iff_of_false nofun (not_or.mpr ⟨hne i, fun h => hne indexBound h.2⟩)
    | positive =>
      show (if hasFraction m e = true then none
        else if wholePart m e ≤ indexBound then some (min (wholePart m e) (indexBound - 1))
        else none) = some i ↔ some ((m : ℚ) * 2 ^ e) = some (i : ℚ) ∨
          i + 1 = indexBound ∧ some ((m : ℚ) * 2 ^ e) = some (indexBound : ℚ)
      by_cases hfraction : hasFraction m e = true
      · have hne (n : ℕ) : some ((m : ℚ) * 2 ^ e) ≠ some (n : ℚ) := by
          intro h
          apply ne_of_hasFraction hfraction n
          rw [Int.cast_natCast, Option.some.inj h]
        rw [if_pos hfraction]
        exact iff_of_false nofun (not_or.mpr ⟨hne i, fun h => hne indexBound h.2⟩)
      · have hwhole : (wholePart m e : ℚ) = m * 2 ^ e :=
          (hasFraction_eq_false_iff m e).mp (Bool.not_eq_true _ ▸ hfraction)
        rw [if_neg hfraction, ← hwhole, Option.some_inj, Option.some_inj, Nat.cast_inj, Nat.cast_inj]
        by_cases hle : wholePart m e ≤ indexBound
        · rw [if_pos hle, Option.some_inj]
          omega
        · rw [if_neg hle]
          exact iff_of_false nofun (by omega)

/-- Below the greatest index an index is the number itself. -/
theorem toIndex_eq_some_iff {i : ℕ} (hi : i + 1 < indexBound) (x : Float) :
    toIndex x = some i ↔ rational? x = some (i : ℚ) := by
  rw [toIndex_eq_some_iff_or (Nat.lt_of_succ_lt hi)]
  exact or_iff_left fun h => hi.ne h.1

/-- **An index is the number itself** for every double and every index of 64 bits, but for one pair:
the number `2 ^ 64`, which is no index, counts as the greatest index. -/
theorem toIndex_iff_rational?_iff (x : Float) (i : Fin (2 ^ 64)) :
    ((toIndex x = some i.val ↔ rational? x = some (i.val : ℚ)) ↔
      ¬(rational? x = some (2 ^ 64) ∧ i.val = 2 ^ 64 - 1)) ∧
    (rational? x = some (2 ^ 64) → toIndex x = some (2 ^ 64 - 1)) := by
  have hbound : (indexBound : ℚ) = 2 ^ 64 := by norm_num [indexBound]
  have hindex (j : ℕ) (hj : j < 2 ^ 64) : toIndex x = some j ↔
      rational? x = some (j : ℚ) ∨ j = 2 ^ 64 - 1 ∧ rational? x = some (2 ^ 64) := by
    have hiff := toIndex_eq_some_iff_or (show j < indexBound from hj) x
    rw [hbound] at hiff
    rw [hiff]
    refine or_congr_right' fun _ => and_congr_left fun _ => ?_
    show j + 1 = 2 ^ 64 ↔ j = 2 ^ 64 - 1
    omega
  constructor
  · rw [hindex i.val i.isLt]
    constructor
    · rintro hexact ⟨hx, hi⟩
      -- the number cannot be the greatest index as well
      have hself := hexact.mp (.inr ⟨hi, hx⟩)
      rw [hx, hi] at hself
      norm_num at hself
    · exact fun hpair => or_iff_left fun h => hpair ⟨h.2, h.1⟩
  · exact fun hx => (hindex (2 ^ 64 - 1) (by norm_num)).mpr (.inr ⟨rfl, hx⟩)

/-- The double `2 ^ 64` counts as the greatest index. -/
theorem not_toIndex_iff_rational?_two_pow :
    toIndex (ofBinary .positive 1 64) = some (2 ^ 64 - 1) ∧
      rational? (ofBinary .positive 1 64) = some (2 ^ 64) ∧
      ¬ ∀ (x : Float) (i : Fin (2 ^ 64)),
        toIndex x = some i.val ↔ rational? x = some (i.val : ℚ) := by
  have hindex : toIndex (ofBinary .positive 1 64) = some (2 ^ 64 - 1) := by decide +kernel
  have hnumber : rational? (ofBinary .positive 1 64) = some (2 ^ 64) := by decide +kernel
  refine ⟨hindex, hnumber, fun hexact => ?_⟩
  have hself := (hexact _ ⟨2 ^ 64 - 1, by norm_num⟩).mp hindex
  rw [hnumber] at hself
  norm_num at hself

end Number

open Number (rational?)

/-! ### Items -/

variable {items : List Value} {x : Float}

/-- The places in an array are below the greatest index. -/
theorem toIndex_eq_some_iff_of_lt_length (hlength : items.length < 2 ^ 63) {i : ℕ}
    (hi : i < items.length) : Number.toIndex x = some i ↔ rational? x = some (i : ℚ) := by
  apply Number.toIndex_eq_some_iff
  show i + 1 < 2 ^ 64
  omega

theorem itemAt_of_rational? (hlength : items.length < 2 ^ 63) {i : ℕ} {item : Value}
    (hitem : items[i]? = some item) (hx : rational? x = some (i : ℚ)) : itemAt items x = item := by
  obtain ⟨hi, -⟩ := List.getElem?_eq_some_iff.mp hitem
  unfold itemAt
  rw [(toIndex_eq_some_iff_of_lt_length hlength hi).mpr hx, Option.bind_some, hitem,
    Option.getD_some]

theorem itemAt_of_ne (hlength : items.length < 2 ^ 63)
    (hx : ∀ i < items.length, rational? x ≠ some (i : ℚ)) : itemAt items x = .undefined := by
  unfold itemAt
  cases hindex : Number.toIndex x with
  | none => rfl
  | some i =>
    have hi : ¬ i < items.length := fun hi =>
      hx i hi ((toIndex_eq_some_iff_of_lt_length hlength hi).mp hindex)
    rw [Option.bind_some, List.getElem?_eq_none (not_lt.mp hi), Option.getD_none]

/-! ### Evaluation -/

/-- An index of an array whose position has a value. -/
theorem outcome_index_tokens {bindings : Bindings} {maxDepth depth : ℕ} {name : String}
    {position : List Token} {v : Value} (hname : bindings.get? name = some (.array items))
    (hpair : bracketsPair position)
    (hvalue : (evaluate ⟨bindings, .conventional, maxDepth⟩ position (depth + 1)).outcome = .ok v) :
    (evaluate ⟨bindings, .conventional, maxDepth⟩
      (Shape.index name position).tokens depth).outcome = .ok (itemAt items v.toNumber) := by
  let scope : Scope := ⟨bindings, .conventional, maxDepth⟩
  have henclosed : (Shape.index name position).IsEnclosed := hpair
  have hread := Shape.read_tokens henclosed.isOperand henclosed.find?_eq_none
  -- there was depth enough for the position, which is one level deeper
  have hdepth : depth + 1 ≤ scope.depthLimit := by
    by_contra! hdeep
    rw [outcome_evaluate, if_pos (by omega : scope.depthLimit < depth + 1 + 1)] at hvalue
    cases hvalue
  have hitems : itemsOfName bindings name = .ok items := by
    unfold itemsOfName
    rw [hname]
    rfl
  rw [outcome_of_read hdepth hread, Shape.value, hitems, hvalue]
  rfl

/-- **An index of an array is exact.**  It gives the item at the number of the position, where a
negative zero counts as zero, and `undefined` for every number that is not the place of an item. -/
theorem outcome_index (bindings : Bindings) (maxDepth depth : ℕ) (name : String)
    (items : List Value) (position : List Token) (v : Value)
    (hname : bindings.get? name = some (.array items)) (hlength : items.length < 2 ^ 63)
    (hpair : checkPairing position = .ok ())
    (hvalue : (evaluate ⟨bindings, .conventional, maxDepth⟩ position (depth + 1)).outcome = .ok v) :
    let indexed := .ident name ::
      .symbol (.opening .square) :: (position ++ [.symbol (.closing .square)])
    let outcome := (evaluate ⟨bindings, .conventional, maxDepth⟩ indexed depth).outcome
    (∀ (i : ℕ) item, items[i]? = some item →
        rational? v.toNumber = some (i : ℚ) → outcome = .ok item) ∧
      ((∀ i < items.length, rational? v.toNumber ≠ some (i : ℚ)) → outcome = .ok .undefined) := by
  intro indexed outcome
  have houtcome : outcome = .ok (itemAt items v.toNumber) :=
    outcome_index_tokens hname (checkPairing_eq_ok_iff.mp hpair) hvalue
  rw [houtcome]
  exact ⟨fun i item hitem hx => congrArg _ (itemAt_of_rational? hlength hitem hx),
    fun hx => congrArg _ (itemAt_of_ne hlength hx)⟩

/-- The position `-false` is a negative zero, and `undefined` is NaN. -/
theorem outcome_index_of_zero_and_of_nan :
    let scope : Scope := ⟨.ofList [("a", .array [.string "first"])], .conventional, 8⟩
    let zero : List Token := [.symbol (.operator (.arithmetic .subtract)), .ident "false"]
    let nothing : List Token := [.ident "undefined"]
    (evaluate scope (.ident "a" :: .symbol (.opening .square) ::
        (zero ++ [.symbol (.closing .square)])) 0).outcome = .ok (.string "first") ∧
      (evaluate scope (.ident "a" :: .symbol (.opening .square) ::
        (nothing ++ [.symbol (.closing .square)])) 0).outcome = .ok .undefined := by
  intro scope zero nothing
  have hname : scope.bindings.get? "a" = some (.array [.string "first"]) := rfl
  have hlength : [Value.string "first"].length < 2 ^ 63 := by decide
  have hfalse : (evaluate scope [.ident "false"] 2).outcome = .ok (.bool false) := by
    rw [outcome_evaluate]
    rfl
  have hzero : (evaluate scope zero 1).outcome = .ok (.number (-(Value.bool false).toNumber)) := by
    have hread : Shape.read .conventional zero = .negative [.ident "false"] := rfl
    rw [outcome_of_read (by decide) hread, Shape.value, hfalse]
    rfl
  have hnothing : (evaluate scope nothing 1).outcome = .ok .undefined := by
    rw [outcome_evaluate]
    rfl
  refine ⟨(outcome_index _ 8 0 "a" _ zero _ hname hlength rfl hzero).1 0 _ rfl ?_,
    (outcome_index _ 8 0 "a" _ nothing _ hname hlength rfl hnothing).2 fun i _ h => ?_⟩
  · decide +kernel
  · have hnan : rational? Value.undefined.toNumber = none := by decide +kernel
    rw [hnan] at h
    cases h

end RuleConditions
