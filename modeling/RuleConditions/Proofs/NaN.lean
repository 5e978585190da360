import RuleConditions.Proofs.Doubles.Nearest
import RuleConditions.Proofs.Equality
import RuleConditions.Proofs.Ordering

/-!
# NaN in calculations and comparisons

Every arithmetic operator keeps NaN (`ArithmeticOp.isNaN_apply`), and a quotient or remainder by zero
makes it, whatever the dividend is (`ArithmeticOp.isNaN_apply_zero`).

A comparison without an answer, such as every one with NaN, makes all eight operators constant
(`ComparisonOp.apply_of_incomparable`): the two that deny an equality are true and the others false.
-/

namespace RuleConditions

open Number (nan)

/-! ### Arithmetic -/

namespace Number

open Float.Model (UnpackedFloat)
open Float.Model.UnpackedFloat

theorem isNaN_iff_parts (x : Float) : x.isNaN = true ↔ parts x = .notANumber := by
  show (parts x).isNaN = true ↔ _
  cases parts x with
  | notANumber => exact iff_of_true rfl rfl
  | _ => exact iff_of_false Bool.false_ne_true nofun

theorem isNaN_ofParts_notANumber : (ofParts .notANumber).isNaN = true :=
  (isNaN_iff_parts _).mpr parts_ofParts_notANumber

theorem isNaN_nan : nan.isNaN = true := by decide +kernel

theorem isNaN_neg {x : Float} (h : x.isNaN = true) : (-x).isNaN = true := by
  rw [isNaN_iff_parts] at h ⊢
  rw [parts_neg, h]
  rfl

/-- An operation of doubles takes the parts of its operands and puts a result together. -/
theorem isNaN_ofParts {op : UnpackedFloat → UnpackedFloat → UnpackedFloat}
    (hleft : ∀ v, op .notANumber v = .notANumber) (hright : ∀ u, op u .notANumber = .notANumber)
    {x y : Float} (h : x.isNaN = true ∨ y.isNaN = true) :
    (ofParts (op (parts x) (parts y))).isNaN = true := by
  have hop : op (parts x) (parts y) = .notANumber := by
    rw [isNaN_iff_parts, isNaN_iff_parts] at h
    obtain h | h := h <;> rw [h]
    · exact hleft _
    · exact hright _
  rw [hop]
  exact isNaN_ofParts_notANumber

variable {x y : Float}

theorem isNaN_add (h : x.isNaN = true ∨ y.isNaN = true) : (x + y).isNaN = true :=
  isNaN_ofParts (fun _ => rfl) (fun u => by cases u <;> rfl) h

theorem isNaN_sub (h : x.isNaN = true ∨ y.isNaN = true) : (x - y).isNaN = true :=
  isNaN_ofParts (fun _ => rfl) (fun u => by cases u <;> rfl) h

theorem isNaN_mul (h : x.isNaN = true ∨ y.isNaN = true) : (x * y).isNaN = true :=
  isNaN_ofParts (fun _ => rfl) (fun u => by cases u <;> rfl) h

theorem isNaN_div (h : x.isNaN = true ∨ y.isNaN = true) : (x / y).isNaN = true :=
  isNaN_ofParts (fun _ => rfl) (fun u => by cases u <;> rfl) h

theorem isNaN_remainder (h : x.isNaN = true ∨ y.isNaN = true) : (remainder x y).isNaN = true := by
  rw [isNaN_iff_parts, isNaN_iff_parts] at h
  unfold remainder
  obtain h | h := h <;> rw [h]
  · exact isNaN_nan
  · cases parts x <;> exact isNaN_nan

theorem isNaN_ite {p : Prop} [Decidable p] (h : x.isNaN = true) :
    (if p then nan else x).isNaN = true := by
  split
  · exact isNaN_nan
  · exact h

end Number

theorem ArithmeticOp.isNaN_apply (op : ArithmeticOp) {x y : Float}
    (h : x.isNaN = true ∨ y.isNaN = true) : (op.apply x y).isNaN = true := by
  cases op with
  | add => exact Number.isNaN_add h
  | subtract => exact Number.isNaN_sub h
  | multiply => exact Number.isNaN_mul h
  | divide => exact Number.isNaN_ite (Number.isNaN_div h)
  | remainder => exact Number.isNaN_ite (Number.isNaN_remainder h)

/-- Whether the right operand is a divisor. -/
def ArithmeticOp.divides : ArithmeticOp → Bool
  | .divide | .remainder => true
  | .add | .subtract | .multiply => false

theorem ArithmeticOp.isNaN_apply_zero {op : ArithmeticOp} (hop : op.divides = true) (x : Float)
    {y : Float} (hy : (y == 0) = true) : (op.apply x y).isNaN = true := by
  have hguard (z : Float) : (if y == 0 then nan else z).isNaN = true := by
    rw [if_pos hy]
    exact Number.isNaN_nan
  cases op with
  | divide => exact hguard (x / y)
  | remainder => exact hguard (Number.remainder x y)
  | _ => cases hop

/-! ### Comparison -/

/-- The operators that deny an equality. -/
def ComparisonOp.isDenial : ComparisonOp → Bool
  | .unequal | .distinct => true
  | _ => false

/-- Neither equal nor in any order. -/
structure Value.Incomparable (a b : Value) : Prop where
  compare_eq : a.compare b = none
  equal_eq : a.equal b = false

theorem Value.Incomparable.symm {a b : Value} (h : a.Incomparable b) : b.Incomparable a where
  compare_eq := by rw [compare_swap, h.compare_eq]; rfl
  equal_eq := by rw [equal_symm, h.equal_eq]

theorem ComparisonOp.apply_of_incomparable (op : ComparisonOp) {a b : Value}
    (h : a.Incomparable b) : op.apply a b = op.isDenial := by
  have hidentical : a.identical b = false := by
    rw [Bool.eq_false_iff]
    intro hidentical
    have := Value.equal_of_identical hidentical
    rw [h.equal_eq] at this
    cases this
  cases op with
  | equal => exact h.equal_eq
  | unequal => rw [apply, h.equal_eq]; rfl
  | identical => exact hidentical
  | distinct => rw [apply, hidentical]; rfl
  | less => rw [apply, Value.less, h.compare_eq]; rfl
  | greater => rw [apply, Value.greater, h.compare_eq]; rfl
  | atMost => rw [apply, Value.atMost, h.compare_eq]; rfl
  | atLeast => rw [apply, Value.atLeast, h.compare_eq]; rfl

theorem Value.incomparable_of_isNaN {x : Float} {v : Value}
    (h : x.isNaN = true ∨ v.toNumber.isNaN = true) : (Value.number x).Incomparable v := by
  have hcompare : (Value.number x).compare v = none :=
    (compare_eq_none_iff _ v).mpr ⟨fun htext => absurd htext.1 nofun, h⟩
  refine ⟨hcompare, ?_⟩
  cases hv : v.isScalar with
  | true =>
    rw [Bool.eq_false_iff]
    intro hequal
    rw [equal_iff_compare rfl hv, hcompare] at hequal
    cases hequal
  | false => cases v <;> first | rfl | cases hv

end RuleConditions
