import RuleConditions.Shape
import RuleConditions.Token.Pairing

/-!
# Paired brackets and the counters

`closesAll` keeps the brackets that are still open on a stack, and the scans of a slice only count
them.  Tokens whose brackets pair leave every stack as they found it (`closesAll_append`).  The
count is the height of the stack (`exists_stack_of_closesAll`), so on such tokens it never falls
below its start (`nesting_nonneg`) and is back there at the end (`nesting_of_bracketsPair`), and
the partner of a bracket in front of them stands right behind them (`closesAtEnd_append`,
`enclosed?_append`).
-/

namespace RuleConditions

variable {t : Token} {ts xs ys rest interior : List Token} {b : Bracket}
  {awaiting inner : List Bracket}

/-! ### Counting -/

@[simp]
theorem nesting_nil : nesting [] = 0 := rfl

@[simp]
theorem nesting_cons (t : Token) (ts : List Token) :
    nesting (t :: ts) = t.nestingChange + nesting ts := rfl

@[simp]
theorem nesting_append (xs ys : List Token) : nesting (xs ++ ys) = nesting xs + nesting ys := by
  induction xs with
  | nil => rw [List.nil_append, nesting_nil, Int.zero_add]
  | cons t xs ih => rw [List.cons_append, nesting_cons, nesting_cons, ih, Int.add_assoc]

@[simp]
theorem Token.nestingChange_opening : (Token.symbol (.opening b)).nestingChange = 1 := rfl

@[simp]
theorem Token.nestingChange_closing : (Token.symbol (.closing b)).nestingChange = -1 := rfl

/-- A token opens a bracket, closes one, or leaves the number of open brackets alone. -/
theorem Token.bracket_cases (t : Token) :
    (∃ b, t = .symbol (.opening b)) ∨ (∃ b, t = .symbol (.closing b)) ∨ t.nestingChange = 0 := by
  unfold Token.nestingChange
  split
  · exact .inl ⟨_, rfl⟩
  · exact .inr (.inl ⟨_, rfl⟩)
  · exact .inr (.inr rfl)

theorem Token.nestingChange_of_word (h : ∀ s, t ≠ .symbol s) : t.nestingChange = 0 := by
  cases t with
  | symbol s => exact absurd rfl (h s)
  | _ => rfl

/-! ### The stack of open brackets -/

@[simp]
theorem closesAll_opening :
    closesAll awaiting (.symbol (.opening b) :: ts) = closesAll (b :: awaiting) ts := by
  cases awaiting <;> rfl

/-- Without tokens nothing is closed. -/
theorem eq_nil_of_closesAll_nil (h : closesAll awaiting []) : awaiting = [] := by
  cases awaiting with
  | nil => rfl
  | cons b awaiting => exact absurd h (by simp [closesAll])

@[simp]
theorem closesAll_closing_nil : closesAll [] (.symbol (.closing b) :: ts) = false := rfl

@[simp]
theorem closesAll_closing_cons {c : Bracket} :
    closesAll (c :: awaiting) (.symbol (.closing b) :: ts) = (c == b && closesAll awaiting ts) :=
  rfl

/-- A token that is no bracket leaves the stack alone. -/
theorem closesAll_cons (ht : t.nestingChange = 0) :
    closesAll awaiting (t :: ts) = closesAll awaiting ts := by
  rcases t with _ | _ | _ | (_ | _ | b | b | _)
  case symbol.opening => exact absurd ht (by simp)
  case symbol.closing => exact absurd ht (by simp)
  all_goals cases awaiting <;> rfl

/-- **What closes the brackets on top of a stack uncovers the stack below.** -/
theorem closesAll_append (h : closesAll inner xs) :
    closesAll (inner ++ awaiting) (xs ++ rest) = closesAll awaiting rest := by
  induction xs generalizing inner with
  | nil => rw [eq_nil_of_closesAll_nil h, List.nil_append, List.nil_append]
  | cons t xs ih =>
    obtain ⟨b, rfl⟩ | ⟨b, rfl⟩ | ht := t.bracket_cases
    · -- the bracket goes on top of `inner`, so the induction is on every `inner`
      rw [closesAll_opening] at h
      rw [List.cons_append, closesAll_opening]
      exact ih h
    · cases inner with
      | nil => exact absurd h (by simp)
      | cons c inner =>
        rw [closesAll_closing_cons, Bool.and_eq_true] at h
        rw [List.cons_append, List.cons_append, closesAll_closing_cons, h.1, Bool.true_and]
        exact ih h.2
    · rw [closesAll_cons ht] at h
      rw [List.cons_append, closesAll_cons ht]
      exact ih h

/-- Paired brackets leave every stack as they found it. -/
theorem closesAll_append_of_bracketsPair (h : bracketsPair xs) :
    closesAll awaiting (xs ++ rest) = closesAll awaiting rest := by
  have hnil : closesAll [] xs := h
  exact closesAll_append hnil

/-! ### Building paired lists -/

theorem bracketsPair_append (hx : bracketsPair xs) (hy : bracketsPair ys) :
    bracketsPair (xs ++ ys) := by
  rw [bracketsPair, closesAll_append_of_bracketsPair hx]
  exact hy

theorem bracketsPair_cons (ht : t.nestingChange = 0) (h : bracketsPair ts) :
    bracketsPair (t :: ts) := by
  rw [bracketsPair, closesAll_cons ht]
  exact h

theorem bracketsPair_enclose (b : Bracket) (h : bracketsPair interior) :
    bracketsPair (.symbol (.opening b) :: (interior ++ [.symbol (.closing b)])) := by
  rw [bracketsPair, closesAll_opening, closesAll_append_of_bracketsPair h, closesAll_closing_cons,
    beq_self_eq_true, Bool.true_and]
  rfl

/-! ### The counters agree with the stack -/

/-- **The count is the height of the stack**: behind `xs` the test goes on with a stack of as many
brackets as the count says. -/
theorem exists_stack_of_closesAll (h : closesAll awaiting (xs ++ ys)) :
    ∃ stack : List Bracket, (∀ rest, closesAll awaiting (xs ++ rest) = closesAll stack rest) ∧
      awaiting.length + nesting xs = stack.length := by
  induction xs generalizing awaiting with
  | nil => exact ⟨awaiting, fun _ => rfl, by simp⟩
  | cons t xs ih =>
    rw [List.cons_append] at h
    rw [nesting_cons]
    obtain ⟨b, rfl⟩ | ⟨b, rfl⟩ | ht := t.bracket_cases
    · rw [closesAll_opening] at h
      obtain ⟨stack, hstack, hlength⟩ := ih h
      refine ⟨stack, fun rest => ?_, ?_⟩
      · rw [List.cons_append, closesAll_opening, hstack]
      · rw [List.length_cons] at hlength
        rw [Token.nestingChange_opening]
        omega
    · cases awaiting with
      | nil => exact absurd h (by simp)
      | cons c awaiting =>
        rw [closesAll_closing_cons, Bool.and_eq_true] at h
        obtain ⟨stack, hstack, hlength⟩ := ih h.2
        refine ⟨stack, fun rest => ?_, ?_⟩
        · rw [List.cons_append, closesAll_closing_cons, h.1, Bool.true_and, hstack]
        · rw [Token.nestingChange_closing, List.length_cons]
          omega
    · rw [closesAll_cons ht] at h
      obtain ⟨stack, hstack, hlength⟩ := ih h
      refine ⟨stack, fun rest => ?_, ?_⟩
      · rw [List.cons_append, closesAll_cons ht, hstack]
      · rwa [ht, Int.zero_add]

/-- No prefix of a paired list closes more brackets than it opens. -/
theorem nesting_nonneg (h : bracketsPair (xs ++ ys)) : 0 ≤ nesting xs := by
  have hnil : closesAll [] (xs ++ ys) := h
  obtain ⟨stack, -, hlength⟩ := exists_stack_of_closesAll hnil
  rw [List.length_nil] at hlength
  omega

/-- A paired list closes as many brackets as it opens. -/
@[simp]
theorem nesting_of_bracketsPair (h : bracketsPair xs) : nesting xs = 0 := by
  have hnil : closesAll [] (xs ++ []) := by rwa [List.append_nil]
  obtain ⟨stack, hstack, hlength⟩ := exists_stack_of_closesAll hnil
  rw [hstack] at hnil
  rw [eq_nil_of_closesAll_nil hnil, List.length_nil] at hlength
  omega

/-- A bracket that stays open counts. -/
theorem nesting_opening_pos (hxs : 0 ≤ nesting xs) (hys : 0 ≤ nesting ys) :
    0 < nesting (xs ++ .symbol (.opening b) :: ys) := by
  rw [nesting_append, nesting_cons, Token.nestingChange_opening]
  omega

/-! ### The partner of a bracket -/

theorem closesAtEnd_cons {k : Nat} (ht : t.nestingChange = 0) :
    closesAtEnd k (t :: ts) = closesAtEnd k ts := by
  rcases t with _ | _ | _ | (_ | _ | b | b | _)
  case symbol.opening => exact absurd ht (by simp)
  case symbol.closing => exact absurd ht (by simp)
  all_goals cases k <;> rfl

/-- What closes `inner` moves the search for the partner to the bracket below. -/
theorem closesAtEnd_append {k : Nat} (h : closesAll inner xs) :
    closesAtEnd (inner.length + k) (xs ++ rest) = closesAtEnd k rest := by
  induction xs generalizing inner with
  | nil => rw [eq_nil_of_closesAll_nil h, List.length_nil, Nat.zero_add, List.nil_append]
  | cons t xs ih =>
    rw [List.cons_append]
    obtain ⟨b, rfl⟩ | ⟨b, rfl⟩ | ht := t.bracket_cases
    · rw [closesAll_opening] at h
      rw [← ih h, List.length_cons, Nat.add_right_comm]
      -- the scan for the partner tells apart whether brackets are open inside
      cases inner.length + k <;> rfl
    · cases inner with
      | nil => exact absurd h (by simp)
      | cons c inner =>
        rw [closesAll_closing_cons, Bool.and_eq_true] at h
        rw [← ih h.2, List.length_cons, Nat.add_right_comm]
        rfl
    · rw [closesAll_cons ht] at h
      rw [closesAtEnd_cons ht]
      exact ih h

/-- Under either precedence a bracket around a paired interior is seen as one. -/
theorem enclosed?_append (p : Precedence) (b : Bracket) (h : bracketsPair interior) :
    enclosed? p b (interior ++ [.symbol (.closing b)]) = some interior := by
  have hnil : closesAll [] interior := h
  have hend : closesAtEnd 0 (interior ++ [.symbol (.closing b)]) = true :=
    closesAtEnd_append (k := 0) hnil
  simp [enclosed?, hend]

end RuleConditions
