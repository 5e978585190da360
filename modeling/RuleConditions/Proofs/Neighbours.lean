/-!
# What stands beside a part of a list

A list can be cut at a separator and put together again.  A part then stands behind a separator,
unless it is the first, and in front of one, unless it is the last (`exists_intercalate_eq`); it
holds no separator itself (`not_mem_of_mem_splitOn`).
-/

namespace RuleConditions

variable {α : Type} {x : α}

/-- The element in front of what follows `y :: xs`. -/
theorem getLast?_cons_or (y : α) (xs : List α) (b : Option α) :
    (y :: xs).getLast?.or b = xs.getLast?.or (some y) := by
  rw [List.getLast?_cons]
  cases xs.getLast? <;> rfl

theorem any_or_eq_true {a : Option α} {p : α → Bool} (ha : a.any p = true) (b : Option α) :
    (a.or b).any p = true := by
  cases a with
  | none => exact absurd ha (by simp)
  | some y => exact ha

theorem any_or_eq_false {a b : Option α} {p : α → Bool} (ha : a.any p = false)
    (hb : b.any p = false) : (a.or b).any p = false := by
  cases a with
  | none => exact hb
  | some y => exact ha

/-! ### Separators -/

/-- Where a part stands among the parts with a separator between each two. -/
theorem exists_intercalate_eq (x : α) (before : List (List α)) (part : List α)
    (after : List (List α)) :
    ∃ front back, [x].intercalate (before ++ part :: after) = front ++ part ++ back ∧
      (∀ y ∈ front.getLast?, y = x) ∧ (∀ y ∈ back.head?, y = x) ∧ (after = [] → back = []) := by
  induction before with
  | nil =>
    cases after with
    | nil => exact ⟨[], [], by simp, by simp, by simp, fun _ => rfl⟩
    | cons next after =>
      refine ⟨[], x :: [x].intercalate (next :: after), ?_, by simp, by simp, by simp⟩
      simp [List.intercalate_cons_cons]
  | cons first before ih =>
    obtain ⟨front, back, hall, hfront, hback⟩ := ih
    refine ⟨first ++ x :: front, back, ?_, ?_, hback⟩
    · rw [List.cons_append, List.intercalate_cons_of_ne_nil (by simp), hall]
      simp
    · -- the last element is that of `front`, or the separator behind `first`
      intro y hy
      rw [List.getLast?_append, List.getLast?_cons] at hy
      cases hlast : front.getLast? with
      | none => simpa [hlast] using hy.symm
      | some z => exact hfront y (by simpa [hlast] using hy)

variable [BEq α] [LawfulBEq α] {xs part : List α}

/-- No part holds the separator. -/
theorem not_mem_of_mem_splitOn (h : part ∈ xs.splitOn x) : x ∉ part := by
  induction xs generalizing part with
  | nil =>
    rw [List.splitOn_nil, List.mem_singleton] at h
    simp [h]
  | cons y xs ih =>
    rw [List.splitOn_cons_eq_if_modifyHead] at h
    obtain ⟨first, rest, hparts⟩ := List.exists_cons_of_ne_nil (List.splitOn_ne_nil x xs)
    rw [hparts] at h ih
    by_cases hy : y = x
    · rw [if_pos (beq_iff_eq.mpr hy), List.mem_cons] at h
      obtain rfl | h := h
      · simp
      · exact ih h
    · rw [if_neg (by simpa using hy), List.modifyHead_cons, List.mem_cons] at h
      obtain rfl | h := h
      · rw [List.mem_cons, not_or]
        exact ⟨fun hx => hy hx.symm, ih (List.mem_cons_self ..)⟩
      · exact ih (List.mem_cons_of_mem _ h)

/-- A part stands at the start or behind a separator, and at the end or in front of one. -/
theorem exists_append_of_mem_splitOn (h : part ∈ xs.splitOn x) :
    ∃ front back, xs = front ++ part ++ back ∧ (∀ y ∈ front.getLast?, y = x) ∧
      ∀ y ∈ back.head?, y = x := by
  obtain ⟨before, after, hparts⟩ := List.append_of_mem h
  obtain ⟨front, back, hall, hfront, hback, -⟩ := exists_intercalate_eq x before part after
  rw [← hparts, List.intercalate_splitOn] at hall
  exact ⟨front, back, hall, hfront, hback⟩

/-- The last part stands at the end. -/
theorem exists_append_of_getLast?_splitOn (h : (xs.splitOn x).getLast? = some part) :
    ∃ front, xs = front ++ part ∧ ∀ y ∈ front.getLast?, y = x := by
  obtain ⟨before, hparts⟩ := List.getLast?_eq_some_iff.mp h
  obtain ⟨front, back, hall, hfront, -, hback⟩ := exists_intercalate_eq x before part []
  rw [← hparts, List.intercalate_splitOn, hback rfl, List.append_nil] at hall
  exact ⟨front, hall, hfront⟩

end RuleConditions
