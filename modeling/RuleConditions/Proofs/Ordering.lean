import RuleConditions.Proofs.Doubles.Order
import RuleConditions.Value.Comparison

/-!
# The order of values

Two texts are compared as texts.  All other pairs are compared as the points at which their numbers
stand (`compare_of_not_isText`), so the order is that of a line with two exceptions: there is no answer
where a number is NaN, and a text stands at different places for texts and for others.  The second is
why `less` is transitive only if not exactly two of three values are texts.

On numbers, texts and truth values the order and `equal` agree (`equal_iff_compare`), though each has
its own way of telling the cases apart.
-/

namespace RuleConditions.Value

open Number (value?)

/-- Whether the value is a text. -/
def isText : Value → Bool
  | .string _ => true
  | _ => false

/-! ### Comparison -/

theorem compareNumbers_eq (x y : Float) :
    compareNumbers x y = Option.map₂ cmp (value? x) (value? y) := by
  have hlt := Number.lt_iff x y
  have hgt := Number.lt_iff y x
  have heq := Number.beq_iff x y
  rw [Number.map₂_cmp_swap (value? x) (value? y)] at hgt
  generalize Option.map₂ cmp (value? x) (value? y) = o at hlt hgt heq ⊢
  unfold compareNumbers
  simp only [hlt, hgt, heq]
  cases o with
  | none => rfl
  | some o => cases o <;> rfl

theorem compare_of_not_isText {a b : Value} (h : ¬ (a.isText = true ∧ b.isText = true)) :
    compare a b = Option.map₂ cmp (value? a.toNumber) (value? b.toNumber) := by
  rw [← compareNumbers_eq]
  unfold compare
  split
  · exact absurd ⟨rfl, rfl⟩ h
  · rfl

theorem compareTexts_swap (s t : String) : compareTexts t s = (compareTexts s t).swap :=
  compareOfLessAndEq_eq_swap String.le_antisymm String.le_total String.not_le

theorem compareTexts_eq_eq_iff (s t : String) : compareTexts s t = .eq ↔ s = t :=
  compareOfLessAndEq_eq_eq String.le_refl String.not_le

theorem compareTexts_trans {s t u : String} (hst : compareTexts s t = .lt)
    (htu : compareTexts t u = .lt) : compareTexts s u = .lt := by
  unfold compareTexts at hst htu ⊢
  rw [compareOfLessAndEq_eq_lt] at hst htu ⊢
  exact String.lt_trans hst htu

theorem exists_string_of_isText {a : Value} (h : a.isText = true) : ∃ s, a = .string s := by
  cases a with
  | string s => exact ⟨s, rfl⟩
  | _ => cases h

theorem compare_swap (a b : Value) : compare b a = (compare a b).map Ordering.swap := by
  by_cases h : a.isText = true ∧ b.isText = true
  · obtain ⟨s, rfl⟩ := exists_string_of_isText h.1
    obtain ⟨t, rfl⟩ := exists_string_of_isText h.2
    exact congrArg some (compareTexts_swap s t)
  · rw [compare_of_not_isText h, compare_of_not_isText fun hba => h hba.symm,
      Number.map₂_cmp_swap]

/-- There is no answer exactly where a number is NaN. -/
theorem compare_eq_none_iff (a b : Value) :
    compare a b = none ↔ ¬ (a.isText = true ∧ b.isText = true) ∧
      (a.toNumber.isNaN = true ∨ b.toNumber.isNaN = true) := by
  by_cases h : a.isText = true ∧ b.isText = true
  · obtain ⟨s, rfl⟩ := exists_string_of_isText h.1
    obtain ⟨t, rfl⟩ := exists_string_of_isText h.2
    exact iff_of_false nofun fun hnot => hnot.1 ⟨rfl, rfl⟩
  · rw [compare_of_not_isText h, Option.map₂_eq_none_iff, Number.isNaN_iff, Number.isNaN_iff]
    exact (and_iff_right h).symm

/-! ### Order -/

theorem less_iff (a b : Value) : less a b = true ↔ compare a b = some .lt := beq_iff_eq

theorem greater_iff (a b : Value) : greater a b = true ↔ compare a b = some .gt := beq_iff_eq

theorem atMost_iff (a b : Value) :
    atMost a b = true ↔ less a b = true ∨ compare a b = some .eq := by
  unfold atMost less
  rw [Bool.or_eq_true, beq_iff_eq (b := some Ordering.eq)]

theorem atLeast_iff (a b : Value) :
    atLeast a b = true ↔ greater a b = true ∨ compare a b = some .eq := by
  unfold atLeast greater
  rw [Bool.or_eq_true, beq_iff_eq (b := some Ordering.eq)]

theorem less_eq_greater (a b : Value) : less a b = greater b a := by
  unfold less greater
  rw [compare_swap a b]
  cases compare a b with
  | none => rfl
  | some o => cases o <;> rfl

theorem atMost_eq_atLeast (a b : Value) : atMost a b = atLeast b a := by
  unfold atMost atLeast
  rw [compare_swap a b]
  cases compare a b with
  | none => rfl
  | some o => cases o <;> rfl

theorem less_iff_lt {a b : Value} (h : ¬ (a.isText = true ∧ b.isText = true)) :
    less a b = true ↔ ∃ p q, value? a.toNumber = some p ∧ value? b.toNumber = some q ∧ p < q := by
  rw [less_iff, compare_of_not_isText h, Option.map₂_eq_some_iff]
  refine exists₂_congr fun p q => ?_
  rw [cmp_eq_lt_iff, Option.mem_def, Option.mem_def]

/-- Three values that are not all texts, and not two of them, make no pair of texts. -/
theorem no_two_texts : ∀ p q r : Bool, ¬ (p = true ∧ q = true ∧ r = true) →
    [p, q, r].countP id ≠ 2 →
    ¬ (p = true ∧ q = true) ∧ ¬ (q = true ∧ r = true) ∧ ¬ (p = true ∧ r = true) := by
  decide

/-- Where two of three values are texts, these two meet as texts and the third meets them as numbers. -/
theorem less_trans {a b c : Value} (h : [a, b, c].countP isText ≠ 2) (hab : less a b = true)
    (hbc : less b c = true) : less a c = true := by
  by_cases hall : a.isText = true ∧ b.isText = true ∧ c.isText = true
  · obtain ⟨s, rfl⟩ := exists_string_of_isText hall.1
    obtain ⟨t, rfl⟩ := exists_string_of_isText hall.2.1
    obtain ⟨u, rfl⟩ := exists_string_of_isText hall.2.2
    rw [less_iff] at hab hbc ⊢
    exact congrArg some (compareTexts_trans (Option.some.inj hab) (Option.some.inj hbc))
  -- no two of them meet as texts, so each has one place on the line
  · obtain ⟨hnab, hnbc, hnac⟩ := no_two_texts _ _ _ hall h
    rw [less_iff_lt hnab] at hab
    rw [less_iff_lt hnbc] at hbc
    rw [less_iff_lt hnac]
    obtain ⟨p, q, ha, hb, hpq⟩ := hab
    obtain ⟨q', r, hb', hc, hqr⟩ := hbc
    obtain rfl : q = q' := Option.some.inj (hb.symm.trans hb')
    exact ⟨p, r, ha, hc, hpq.trans hqr⟩

/-! ### Order and equality -/

theorem beq_toNumber_bool (p q : Bool) :
    ((Value.bool p).toNumber == (Value.bool q).toNumber) = (p == q) := by
  cases p <;> cases q <;> decide +kernel

/-- Two scalars are equal if they are the same texts, or else if their numbers are. -/
theorem equal_scalars {a b : Value} (ha : a.isScalar = true) (hb : b.isScalar = true) :
    equal a b = if a.isText && b.isText then identical a b else a.toNumber == b.toNumber := by
  cases a with
  | bool p => cases b with
    | bool q => exact (beq_toNumber_bool p q).symm
    | number y => rfl
    | string t => rfl
    | _ => cases hb
  | number x => cases b with
    | bool q => rfl
    | number y => rfl
    | string t => rfl
    | _ => cases hb
  | string s => cases b with
    | bool q => rfl
    | number y => rfl
    | string t => rfl
    | _ => cases hb
  | _ => cases ha

theorem equal_iff_compare {a b : Value} (ha : a.isScalar = true) (hb : b.isScalar = true) :
    equal a b = true ↔ compare a b = some .eq := by
  rw [equal_scalars ha hb]
  by_cases h : a.isText = true ∧ b.isText = true
  · rw [if_pos (by rw [h.1, h.2]; rfl)]
    obtain ⟨s, rfl⟩ := exists_string_of_isText h.1
    obtain ⟨t, rfl⟩ := exists_string_of_isText h.2
    show (s == t) = true ↔ some (compareTexts s t) = some .eq
    rw [beq_iff_eq, Option.some_inj, compareTexts_eq_eq_iff]
  · rw [if_neg (by rwa [Bool.and_eq_true]), compare_of_not_isText h]
    exact Number.beq_iff _ _

theorem order_laws (a b c : Value) :
    compare b a = (compare a b).map Ordering.swap ∧
    less a b = greater b a ∧
    atMost a b = atLeast b a ∧
    (atMost a b = true ↔ less a b = true ∨ compare a b = some .eq) ∧
    (atLeast a b = true ↔ greater a b = true ∨ compare a b = some .eq) ∧
    (a.isScalar = true → b.isScalar = true →
      ¬ (less a b = true ∧ greater a b = true) ∧
      ¬ (less a b = true ∧ equal a b = true) ∧
      ¬ (greater a b = true ∧ equal a b = true) ∧
      (equal a b = true ↔ compare a b = some .eq) ∧
      (less a b = false ∧ greater a b = false ∧ equal a b = false ↔
        ¬ (a.isText = true ∧ b.isText = true) ∧
          (a.toNumber.isNaN = true ∨ b.toNumber.isNaN = true))) ∧
    ([a, b, c].countP isText ≠ 2 → less a b = true → less b c = true → less a c = true) := by
  refine ⟨compare_swap a b, less_eq_greater a b, atMost_eq_atLeast a b, atMost_iff a b,
    atLeast_iff a b, fun ha hb => ?_, less_trans⟩
  have hequal := equal_iff_compare ha hb
  rw [← compare_eq_none_iff, ← Bool.not_eq_true, ← Bool.not_eq_true, ← Bool.not_eq_true, less_iff,
    greater_iff, hequal]
  cases compare a b with
  | none => simp
  | some o => cases o <;> simp

/-- The texts `10` and `9` are in the order of their first digits, and `9` is less than 9.5. -/
example :
    less (.string "10") (.string "9") = true ∧ less (.string "9") (.number 9.5) = true ∧
    less (.string "10") (.number 9.5) = false := by
  refine ⟨?_, ?_, ?_⟩ <;> decide +kernel

end RuleConditions.Value
