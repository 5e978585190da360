import RuleConditions.Operation
import RuleConditions.Proofs.Doubles.Order

/-!
# The two equalities

`identical` is symmetric and transitive; it is reflexive but for NaN, which may sit deep inside a value
(`HoldsNaN`).  `equal` is symmetric and takes identical values for equal.  Beyond that it only says more
where numbers, texts and truth values of different types meet, and where null meets undefined.

Both follow the values' structure, so the laws of `identical` are inductions with one case for each kind
of value, and one for items and one for fields.  The case of numbers is a law of doubles.
-/

namespace RuleConditions.Value

/-! ### Identity -/

mutual

theorem identical_symm : (a b : Value) → identical a b = identical b a
  | .undefined, b => by cases b <;> rfl
  | .null, b => by cases b <;> rfl
  | .bool p, b => by
    cases b with
    | bool q => exact Bool.beq_comm
    | _ => rfl
  | .number x, b => by
    cases b with
    | number y => exact Number.beq_symm x y
    | _ => rfl
  | .string s, b => by
    cases b with
    | string t => exact BEq.comm
    | _ => rfl
  | .array as, b => by
    cases b with
    | array bs => exact identicalItems_symm as bs
    | _ => rfl
  | .object as, b => by
    cases b with
    | object bs => exact identicalFields_symm as bs
    | _ => rfl

theorem identicalItems_symm : (as bs : List Value) → identicalItems as bs = identicalItems bs as
  | [], bs => by cases bs <;> rfl
  | a :: as, bs => by
    cases bs with
    | nil => rfl
    | cons b bs =>
      unfold identicalItems
      rw [identical_symm a b, identicalItems_symm as bs]

theorem identicalFields_symm :
    (as bs : List (String × Value)) → identicalFields as bs = identicalFields bs as
  | [], bs => by cases bs <;> rfl
  | (name, a) :: as, bs => by
    cases bs with
    | nil => rfl
    | cons b bs =>
      obtain ⟨other, b⟩ := b
      unfold identicalFields
      rw [identical_symm a b, identicalFields_symm as bs, BEq.comm (a := name)]

end

mutual

theorem identical_trans : (a b c : Value) → identical a b = true → identical b c = true →
    identical a c = true
  | .undefined, b, c, hab, hbc => by
    cases b <;> first | exact hbc | cases hab
  | .null, b, c, hab, hbc => by
    cases b <;> first | exact hbc | cases hab
  | .bool p, b, c, hab, hbc => by
    cases b with
    | bool q =>
      obtain rfl : p = q := eq_of_beq hab
      exact hbc
    | _ => cases hab
  | .number x, b, c, hab, hbc => by
    cases b with
    | number y => cases c with
      | number z => exact Number.beq_trans hab hbc
      | _ => cases hbc
    | _ => cases hab
  | .string s, b, c, hab, hbc => by
    cases b with
    | string t =>
      obtain rfl : s = t := eq_of_beq hab
      exact hbc
    | _ => cases hab
  | .array as, b, c, hab, hbc => by
    cases b with
    | array bs => cases c with
      | array cs => exact identicalItems_trans as bs cs hab hbc
      | _ => cases hbc
    | _ => cases hab
  | .object as, b, c, hab, hbc => by
    cases b with
    | object bs => cases c with
      | object cs => exact identicalFields_trans as bs cs hab hbc
      | _ => cases hbc
    | _ => cases hab

theorem identicalItems_trans : (as bs cs : List Value) → identicalItems as bs = true →
    identicalItems bs cs = true → identicalItems as cs = true
  | [], bs, cs, hab, hbc => by
    cases bs with
    | nil => exact hbc
    | cons b bs => cases hab
  | a :: as, bs, cs, hab, hbc => by
    cases bs with
    | nil => cases hab
    | cons b bs => cases cs with
      | nil => cases hbc
      | cons c cs =>
        unfold identicalItems at hab hbc ⊢
        rw [Bool.and_eq_true] at hab hbc ⊢
        exact ⟨identical_trans a b c hab.1 hbc.1, identicalItems_trans as bs cs hab.2 hbc.2⟩

theorem identicalFields_trans : (as bs cs : List (String × Value)) → identicalFields as bs = true →
    identicalFields bs cs = true → identicalFields as cs = true
  | [], bs, cs, hab, hbc => by
    cases bs with
    | nil => exact hbc
    | cons b bs => cases hab
  | (name, a) :: as, bs, cs, hab, hbc => by
    cases bs with
    | nil => cases hab
    | cons b bs => cases cs with
      | nil => cases hbc
      | cons c cs =>
        obtain ⟨other, b⟩ := b
        obtain ⟨third, c⟩ := c
        unfold identicalFields at hab hbc ⊢
        rw [Bool.and_eq_true, Bool.and_eq_true] at hab hbc ⊢
        obtain rfl : name = other := eq_of_beq hab.1.1
        exact ⟨⟨hbc.1.1, identical_trans a b c hab.1.2 hbc.1.2⟩,
          identicalFields_trans as bs cs hab.2 hbc.2⟩

end

/-- NaN is the value, or stands somewhere among its items and fields. -/
inductive HoldsNaN : Value → Prop
  | number {x : Float} (hx : x.isNaN = true) : HoldsNaN (.number x)
  | item {v : Value} {items : List Value} (hmem : v ∈ items) (hv : HoldsNaN v) :
      HoldsNaN (.array items)
  | field {name : String} {v : Value} {fields : List (String × Value)}
      (hmem : (name, v) ∈ fields) (hv : HoldsNaN v) : HoldsNaN (.object fields)

theorem holdsNaN_number_iff (x : Float) : HoldsNaN (.number x) ↔ x.isNaN = true :=
  ⟨fun h => by cases h; assumption, .number⟩

theorem holdsNaN_array_iff (items : List Value) :
    HoldsNaN (.array items) ↔ ∃ v ∈ items, HoldsNaN v := by
  constructor
  · intro h
    cases h with
    | item hmem hv => exact ⟨_, hmem, hv⟩
  · rintro ⟨v, hmem, hv⟩
    exact .item hmem hv

theorem holdsNaN_object_iff (fields : List (String × Value)) :
    HoldsNaN (.object fields) ↔ ∃ field ∈ fields, HoldsNaN field.2 := by
  constructor
  · intro h
    cases h with
    | field hmem hv => exact ⟨_, hmem, hv⟩
  · rintro ⟨⟨name, v⟩, hmem, hv⟩
    exact .field hmem hv

mutual

theorem identical_self_iff : (v : Value) → (identical v v = true ↔ ¬ HoldsNaN v)
  | .undefined => iff_of_true rfl nofun
  | .null => iff_of_true rfl nofun
  | .bool p => iff_of_true BEq.rfl nofun
  | .number x => (Number.beq_self_iff x).trans (not_congr (holdsNaN_number_iff x)).symm
  | .string s => iff_of_true BEq.rfl nofun
  | .array items => by
    rw [holdsNaN_array_iff]
    exact identicalItems_self_iff items
  | .object fields => by
    rw [holdsNaN_object_iff]
    exact identicalFields_self_iff fields

theorem identicalItems_self_iff : (items : List Value) →
    (identicalItems items items = true ↔ ¬ ∃ v ∈ items, HoldsNaN v)
  | [] => iff_of_true rfl (by simp)
  | v :: items => by
    unfold identicalItems
    rw [Bool.and_eq_true, identical_self_iff v, identicalItems_self_iff items]
    simp only [List.mem_cons, exists_eq_or_imp, not_or]

theorem identicalFields_self_iff : (fields : List (String × Value)) →
    (identicalFields fields fields = true ↔ ¬ ∃ field ∈ fields, HoldsNaN field.2)
  | [] => iff_of_true rfl (by simp)
  | (name, v) :: fields => by
    unfold identicalFields
    rw [Bool.and_eq_true, Bool.and_eq_true, identical_self_iff v, identicalFields_self_iff fields]
    simp only [BEq.rfl, true_and, List.mem_cons, exists_eq_or_imp, not_or]

end

/-! ### Equality across types -/

/-- Whether the value is an array or an object. -/
def isContainer : Value → Bool
  | .array _ | .object _ => true
  | _ => false

theorem equal_symm (a b : Value) : equal a b = equal b a := by
  have htypes : (a.type != b.type) = (b.type != a.type) := by
    unfold bne
    rw [BEq.comm]
  unfold equal
  rw [Bool.or_comm, Bool.and_comm a.isNothing, Bool.and_comm a.isScalar, htypes,
    Number.beq_symm a.toNumber, identical_symm a b]

theorem type_eq_of_identical {a b : Value} (h : identical a b = true) : a.type = b.type := by
  cases a <;> cases b <;> first | rfl | cases h

theorem equal_of_type_eq {a b : Value} (h : a.type = b.type) : equal a b = identical a b := by
  cases a <;> cases b <;> first | rfl | cases h

theorem equal_of_identical {a b : Value} (h : identical a b = true) : equal a b = true := by
  rw [equal_of_type_eq (type_eq_of_identical h)]
  exact h

/-- An array or object is never nothing and never a scalar. -/
theorem equal_of_isContainer {a b : Value} (ha : a.isContainer = true) :
    equal a b = identical a b := by
  cases a with
  | array items => cases b <;> rfl
  | object fields => cases b <;> rfl
  | _ => cases ha

theorem typeText_injective {a b : ValueType} (h : a.text = b.text) : a = b := by
  cases a <;> cases b <;> first | rfl | cases (of_decide_eq_false rfl h)

/-- The types count by their names, and the two inequalities are the operators that are written so. -/
theorem equality_laws (a b c : Value) :
    identical a b = identical b a ∧
    equal a b = equal b a ∧
    (identical a b = true → identical b c = true → identical a c = true) ∧
    (identical a a = true ↔ ¬ HoldsNaN a) ∧
    (identical a b = true → equal a b = true) ∧
    (a.type.text = b.type.text ∨ a.isContainer = true ∨ b.isContainer = true →
      equal a b = identical a b) ∧
    (∃ op negation, ComparisonOp.ofText? "==" = some op ∧
      ComparisonOp.ofText? "!=" = some negation ∧
      op.apply a b = equal a b ∧ negation.apply a b = !op.apply a b) ∧
    ∃ op negation, ComparisonOp.ofText? "===" = some op ∧
      ComparisonOp.ofText? "!==" = some negation ∧
      op.apply a b = identical a b ∧ negation.apply a b = !op.apply a b := by
  refine ⟨identical_symm a b, equal_symm a b, identical_trans a b c, identical_self_iff a,
    equal_of_identical, ?_, ⟨.equal, .unequal, by decide, by decide, rfl, rfl⟩,
    .identical, .distinct, by decide, by decide, rfl, rfl⟩
  rintro (htype | ha | hb)
  · exact equal_of_type_eq (typeText_injective htype)
  · exact equal_of_isContainer ha
  · rw [equal_symm, identical_symm]
    exact equal_of_isContainer hb

/-- Identity is not reflexive below the surface, and equality is not transitive: a text meets both
numbers and texts. -/
example :
    identical (.array [.object [("limit", .number Number.nan)]])
      (.array [.object [("limit", .number Number.nan)]]) = false ∧
    equal (.string "1.0") (.number 1) = true ∧ equal (.number 1) (.string "1") = true ∧
    equal (.string "1.0") (.string "1") = false := by
  refine ⟨?_, ?_, ?_, ?_⟩ <;> decide +kernel

end RuleConditions.Value
