import RuleConditions.Catalogue
import RuleConditions.Proofs.Doubles.Exact
import RuleConditions.Proofs.NaN

/-!
# The least and the greatest of several numbers

`least` and `greatest` go through a list once and keep one of two numbers at a time, beginning with
an infinity that need not be in the list.  Nothing stands beyond that infinity, so the first number
takes its place, and from then on what is kept is a number of the list that stands before all
numbers seen so far (`Picks.foldl_mem_and_le`).

Which number of a list stands before all others is settled by the list but for the sign of a zero
(`IsChoice.sameNumber`), so the order of the numbers in the list does not matter.
-/

namespace RuleConditions

open Float.Model (UnpackedFloat)
open Number

/-! ### Numbers at one place -/

/-- Equal but for the sign of a zero. -/
def SameNumber (x y : Float) : Prop := x = y ∨ (x == 0) = true ∧ (y == 0) = true

/-- Only zeros have several parts for one place. -/
theorem eq_or_zeros_of_compare {u v : UnpackedFloat} (h : u.compare v = some .eq) :
    u = v ∨ (∃ s, u = .zero s) ∧ ∃ s, v = .zero s := by
  cases u with
  | notANumber => cases h
  | infinity s => cases v with
    | infinity s' => cases s <;> cases s' <;> first | exact .inl rfl | cases h
    | _ => cases s <;> cases h
  | zero s => cases v with
    | zero s' => exact .inr ⟨⟨s, rfl⟩, s', rfl⟩
    | infinity s' => cases s' <;> cases h
    | finite s' m' e' hm' => cases s' <;> cases h
    | notANumber => cases h
  | finite s m e hm => cases v with
    | finite s' m' e' hm' =>
      have horder : s = s' ∧ (compare e e').then (compare m m') = .eq := by
        cases s <;> cases s' <;> try cases h
        · exact ⟨rfl, Ordering.swap_eq_eq.mp (Option.some.inj h)⟩
        · exact ⟨rfl, Option.some.inj h⟩
      obtain ⟨rfl, horder⟩ := horder
      rw [Ordering.then_eq_eq, compare_eq_iff_eq, compare_eq_iff_eq] at horder
      obtain ⟨rfl, rfl⟩ := horder
      exact .inl rfl
    | infinity s' => cases s' <;> cases h
    | zero s' => cases s <;> cases h
    | notANumber => cases h

theorem beq_zero_of_parts {x : Float} {s : UnpackedFloat.Sign} (hx : parts x = .zero s) :
    (x == 0) = true := by
  have hzero : place? x = some 0 := by
    unfold place?
    rw [hx]
  exact (beq_iff_place? x 0).mpr ⟨0, hzero, rfl⟩

theorem sameNumber_of_beq {x y : Float} (h : (x == y) = true) : SameNumber x y := by
  rw [beq_iff, ← compare_parts] at h
  obtain h | ⟨⟨s, hx⟩, s', hy⟩ := eq_or_zeros_of_compare h
  · exact .inl (eq_of_parts_eq h)
  · exact .inr ⟨beq_zero_of_parts hx, beq_zero_of_parts hy⟩

theorem eq_of_isNaN {x y : Float} (hx : x.isNaN = true) (hy : y.isNaN = true) : x = y := by
  rw [isNaN_iff_parts] at hx hy
  exact eq_of_parts_eq (hx.trans hy.symm)

/-! ### Orders of the numbers -/

/-- An order of the numbers other than NaN, in which only zeros share a place. -/
structure OrdersNumbers (le : Float → Float → Prop) : Prop where
  refl : ∀ {x}, x.isNaN = false → le x x
  trans : ∀ {x y z}, le x y → le y z → le x z
  antisymm : ∀ {x y}, le x y → le y x → SameNumber x y

theorem ordersNumbers_le : OrdersNumbers (· ≤ ·) where
  refl {x} hx := by
    obtain ⟨r, hr⟩ := (isNaN_eq_false_iff_place? x).mp hx
    exact (le_iff_place? x x).mpr ⟨r, r, hr, hr, le_rfl⟩
  trans {x y z} hxy hyz := by
    rw [le_iff_place?] at hxy hyz ⊢
    obtain ⟨p, q, hp, hq, hpq⟩ := hxy
    obtain ⟨q', r, hq', hr, hqr⟩ := hyz
    obtain rfl : q = q' := Option.some.inj (hq.symm.trans hq')
    exact ⟨p, r, hp, hr, hpq.trans hqr⟩
  antisymm {x y} hxy hyx := by
    rw [le_iff_place?] at hxy hyx
    obtain ⟨p, q, hp, hq, hpq⟩ := hxy
    obtain ⟨q', p', hq', hp', hqp⟩ := hyx
    obtain rfl : p = p' := Option.some.inj (hp.symm.trans hp')
    obtain rfl : q = q' := Option.some.inj (hq.symm.trans hq')
    obtain rfl := hpq.antisymm hqp
    exact sameNumber_of_beq ((beq_iff_place? x y).mpr ⟨p, hp, hq⟩)

theorem ordersNumbers_ge : OrdersNumbers (· ≥ ·) where
  refl := ordersNumbers_le.refl
  trans hxy hyz := ordersNumbers_le.trans hyz hxy
  antisymm hxy hyx := ordersNumbers_le.antisymm hyx hxy

/-! ### Choices from a list -/

/-- A number of a list that stands before all of them, or NaN if one of them is NaN. -/
structure IsChoice (le : Float → Float → Prop) (xs : List Float) (x : Float) : Prop where
  isNaN_iff : x.isNaN = true ↔ ∃ y ∈ xs, y.isNaN = true
  mem : x.isNaN = false → x ∈ xs
  le : x.isNaN = false → ∀ y ∈ xs, le x y

/-- Lists of the same numbers have the same choice. -/
theorem IsChoice.sameNumber {le : Float → Float → Prop} {xs ys : List Float} {x y : Float}
    (hle : OrdersNumbers le) (hx : IsChoice le xs x) (hy : IsChoice le ys y)
    (hmem : ∀ z, z ∈ xs ↔ z ∈ ys) : SameNumber x y := by
  have hnan : x.isNaN = true ↔ y.isNaN = true := by
    rw [hx.isNaN_iff, hy.isNaN_iff]
    exact exists_congr fun z => and_congr_left' (hmem z)
  cases hxnan : x.isNaN with
  | true => exact .inl (eq_of_isNaN hxnan (hnan.mp hxnan))
  | false =>
    have hynan : y.isNaN = false := by
      rw [← Bool.not_eq_true, ← hnan, hxnan]
      exact Bool.false_ne_true
    exact hle.antisymm (hx.le hxnan y ((hmem y).mpr (hy.mem hynan)))
      (hy.le hynan x ((hmem x).mp (hx.mem hxnan)))

/-! ### Picking one of two at a time -/

/-- `pick` gives the one of two numbers that stands first, and never keeps `start`. -/
structure Picks (le : Float → Float → Prop) (start : Float) (pick : Float → Float → Float) : Prop
    extends OrdersNumbers le where
  pick_start : ∀ x, pick start x = x
  pick_eq : ∀ x y, pick x y = x ∨ pick x y = y
  pick_le_left : ∀ {x y}, x.isNaN = false → y.isNaN = false → le (pick x y) x
  pick_le_right : ∀ {x y}, x.isNaN = false → y.isNaN = false → le (pick x y) y

section Picks

variable {le : Float → Float → Prop} {start : Float} {pick : Float → Float → Float}

theorem extreme_cons (pick : Float → Float → Float) (start x : Float) (xs : List Float) :
    extreme pick start (x :: xs) = if x.isNaN then nan else extreme pick (pick start x) xs := by
  unfold extreme
  rw [List.foldlM_cons]
  by_cases hx : x.isNaN = true
  · rw [if_pos hx, if_pos hx]
    rfl
  · rw [if_neg hx, if_neg hx]
    rfl

/-- A NaN ends the search, wherever it stands. -/
theorem extreme_of_isNaN {xs : List Float} (h : ∃ y ∈ xs, y.isNaN = true) (start : Float) :
    extreme pick start xs = nan := by
  obtain ⟨y, hy, hnan⟩ := h
  induction xs generalizing start with
  | nil => cases hy
  | cons x xs ih =>
    rw [extreme_cons]
    by_cases hx : x.isNaN = true
    · rw [if_pos hx]
    · obtain rfl | hy := List.mem_cons.mp hy
      · exact absurd hnan hx
      · rw [if_neg hx, ih _ hy]

theorem extreme_of_not_isNaN {xs : List Float} (h : ∀ y ∈ xs, y.isNaN = false) (start : Float) :
    extreme pick start xs = xs.foldl pick start := by
  induction xs generalizing start with
  | nil => rfl
  | cons x xs ih =>
    obtain ⟨hx, hxs⟩ := List.forall_mem_cons.mp h
    rw [extreme_cons, hx, if_neg Bool.false_ne_true, ih hxs, List.foldl_cons]

theorem Picks.isNaN_pick (h : Picks le start pick) {x y : Float} (hx : x.isNaN = false)
    (hy : y.isNaN = false) : (pick x y).isNaN = false := by
  obtain heq | heq := h.pick_eq x y <;> rwa [heq]

/-- What is kept is a number met so far, and stands before all of them. -/
theorem Picks.foldl_mem_and_le (h : Picks le start pick) {x : Float} {xs : List Float}
    (hnan : ∀ y ∈ x :: xs, y.isNaN = false) :
    xs.foldl pick x ∈ x :: xs ∧ ∀ y ∈ x :: xs, le (xs.foldl pick x) y := by
  induction xs generalizing x with
  | nil =>
    obtain ⟨hx, -⟩ := List.forall_mem_cons.mp hnan
    exact ⟨List.mem_singleton_self x, List.forall_mem_singleton.mpr (h.refl hx)⟩
  | cons z zs ih =>
    obtain ⟨hx, hnan⟩ := List.forall_mem_cons.mp hnan
    obtain ⟨hz, hzs⟩ := List.forall_mem_cons.mp hnan
    obtain ⟨hmem, hle⟩ := ih (List.forall_mem_cons.mpr ⟨h.isNaN_pick hx hz, hzs⟩)
    obtain ⟨hpick, hrest⟩ := List.forall_mem_cons.mp hle
    rw [List.foldl_cons]
    constructor
    · obtain heq | hmem := List.mem_cons.mp hmem
      · rw [heq]
        obtain heq | heq := h.pick_eq x z <;> rw [heq]
        · exact List.mem_cons_self
        · exact List.mem_cons_of_mem _ List.mem_cons_self
      · exact List.mem_cons_of_mem _ (List.mem_cons_of_mem _ hmem)
    · exact List.forall_mem_cons.mpr ⟨h.trans hpick (h.pick_le_left hx hz),
        List.forall_mem_cons.mpr ⟨h.trans hpick (h.pick_le_right hx hz), hrest⟩⟩

theorem Picks.isChoice (h : Picks le start pick) {xs : List Float} (hne : xs ≠ []) :
    IsChoice le xs (extreme pick start xs) := by
  by_cases hnan : ∃ y ∈ xs, y.isNaN = true
  · have hextreme : (extreme pick start xs).isNaN = true := by
      rw [extreme_of_isNaN hnan]
      exact isNaN_nan
    have hcontra (hfalse : (extreme pick start xs).isNaN = false) : False :=
      Bool.false_ne_true (hfalse.symm.trans hextreme)
    exact ⟨iff_of_true hextreme hnan, fun hfalse => (hcontra hfalse).elim,
      fun hfalse => (hcontra hfalse).elim⟩
  · obtain ⟨x, xs, rfl⟩ := List.exists_cons_of_ne_nil hne
    have hnot : ∀ y ∈ x :: xs, y.isNaN = false := fun y hy =>
      Bool.eq_false_iff.mpr fun hynan => hnan ⟨y, hy, hynan⟩
    have hextreme : extreme pick start (x :: xs) = xs.foldl pick x := by
      rw [extreme_of_not_isNaN hnot, List.foldl_cons, h.pick_start]
    obtain ⟨hmem, hle⟩ := h.foldl_mem_and_le hnot
    rw [hextreme]
    refine ⟨iff_of_false ?_ hnan, fun _ => hmem, fun _ => hle⟩
    rw [hnot _ hmem]
    exact Bool.false_ne_true

end Picks

/-! ### The least and the greatest -/

theorem not_infinity_lt (x : Float) : ¬ infinity < x := by
  rw [lt_iff_place?]
  rintro ⟨p, q, hp, hq, hpq⟩
  obtain rfl : infinityPlace = p := Option.some.inj hp
  exact ((le_abs_self q).trans (abs_place?_le hq)).not_gt hpq

theorem not_lt_neg_infinity (x : Float) : ¬ x < -infinity := by
  rw [lt_iff_place?]
  rintro ⟨p, q, hp, hq, hpq⟩
  obtain rfl : -infinityPlace = q := Option.some.inj hq
  exact (neg_le_of_abs_le (abs_place?_le hp)).not_gt hpq

/-- Keeping the first of two numbers only if it stands strictly before the second. -/
theorem picks_ite {le before : Float → Float → Prop} [DecidableRel before] {start : Float}
    (hle : OrdersNumbers le) (hstart : ∀ x, ¬ before start x)
    (hbefore : ∀ {x y}, before x y → le x y)
    (hnot : ∀ {x y}, x.isNaN = false → y.isNaN = false → ¬ before x y → le y x) :
    Picks le start (fun a b => if before a b then a else b) where
  toOrdersNumbers := hle
  pick_start x := if_neg (hstart x)
  pick_eq x y := ite_eq_or_eq _ x y
  pick_le_left {x y} hx hy := by
    by_cases h : before x y
    · rw [if_pos h]
      exact hle.refl hx
    · rw [if_neg h]
      exact hnot hx hy h
  pick_le_right {x y} hx hy := by
    by_cases h : before x y
    · rw [if_pos h]
      exact hbefore h
    · rw [if_neg h]
      exact hle.refl hy

theorem isChoice_least {xs : List Float} (hne : xs ≠ []) : IsChoice (· ≤ ·) xs (least xs) :=
  (picks_ite ordersNumbers_le not_infinity_lt float_le_of_lt float_le_of_not_lt).isChoice hne

theorem isChoice_greatest {xs : List Float} (hne : xs ≠ []) : IsChoice (· ≥ ·) xs (greatest xs) :=
  (picks_ite ordersNumbers_ge not_lt_neg_infinity float_le_of_lt
    fun hx hy h => float_le_of_not_lt hy hx h).isChoice hne

/-- A function of one argument or more has a result for every list that is not empty. -/
theorem call_series (name : String) (f : List Float → Float) {xs : List Float} (hne : xs ≠ []) :
    Function.call ⟨name, [], .between 1 none, .series f⟩ xs = .ok (f xs) := by
  obtain ⟨x, xs, rfl⟩ := List.exists_cons_of_ne_nil hne
  rfl

/-- **The functions `min` and `max`** give a number of the list that no other passes, or NaN if one
of them is NaN.  The order of the list changes no more than the sign of a zero. -/
theorem isChoice_min_and_max {xs ys : List Float} (hne : xs ≠ []) (hperm : xs.Perm ys) :
    (Function.find? "min").map (·.call xs) = some (.ok (least xs)) ∧
    (Function.find? "max").map (·.call xs) = some (.ok (greatest xs)) ∧
    IsChoice (· ≤ ·) xs (least xs) ∧ IsChoice (· ≥ ·) xs (greatest xs) ∧
    SameNumber (least xs) (least ys) ∧ SameNumber (greatest xs) (greatest ys) := by
  have hne' : ys ≠ [] := fun h => hne (List.perm_nil.mp (h ▸ hperm))
  have hmin : Function.find? "min" = some ⟨"min", [], .between 1 none, .series least⟩ := rfl
  have hmax : Function.find? "max" = some ⟨"max", [], .between 1 none, .series greatest⟩ := rfl
  refine ⟨?_, ?_, isChoice_least hne, isChoice_greatest hne, ?_, ?_⟩
  · rw [hmin, Option.map_some, call_series "min" least hne]
  · rw [hmax, Option.map_some, call_series "max" greatest hne]
  · exact (isChoice_least hne).sameNumber ordersNumbers_le (isChoice_least hne')
      fun z => hperm.mem_iff
  · exact (isChoice_greatest hne).sameNumber ordersNumbers_ge (isChoice_greatest hne')
      fun z => hperm.mem_iff

/-- Both zeros in either order, beside an infinity that is never chosen as the least. -/
theorem isChoice_min_and_max_of_zeros :
    IsChoice (· ≤ ·) [-0.0, 0.0, infinity] (least [-0.0, 0.0, infinity]) ∧
    SameNumber (least [-0.0, 0.0, infinity]) (least [0.0, -0.0, infinity]) := by
  have h := isChoice_min_and_max (List.cons_ne_nil (-0.0) [0.0, infinity])
    (List.Perm.swap 0.0 (-0.0) [infinity])
  exact ⟨h.2.2.1, h.2.2.2.2.1⟩

end RuleConditions
