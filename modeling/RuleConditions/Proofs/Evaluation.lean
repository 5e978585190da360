import RuleConditions.Evaluate
import RuleConditions.Proofs.Reading

/-!
# One equation for evaluation

`evaluate` recurses on the parts of a slice.  Here the rule for a shape is a function of its own,
`Shape.run`, that is told how to evaluate the parts, and one equation opens an evaluation
(`evaluate_eq`).  What goes through the steps of an evaluation goes through every rule, which is
proved once (`Shape.run_of_congruence`).  So an evaluation leaves the depth as it found it
(`depth_evaluate`), and the outcome alone follows a rule without counters: `Shape.value` and
`outcome_evaluate`.
-/

namespace RuleConditions

open Evaluation

variable {α β : Type} {bindings : Bindings} {s : Shape} {ts part : List Token} {depth : Nat}

/-! ### The rule for a shape -/

/-- The value of a shape whose parts are evaluated by `inner`. -/
def Shape.run (bindings : Bindings) (inner : List Token → Evaluation Value) (s : Shape) :
    Evaluation Value :=
  match s with
  | .empty => fail (.invalidExpression .empty)
  | .binary left op right => do
    note (.split ⟨op, left.length, s.tokens.length⟩)
    let a ← inner left
    let b ← inner right
    return op.apply a b
  | .group interior => inner interior
  | .call name interior => do
    let f ← ofExcept (functionOfName name)
    let args ← each (arguments interior) fun arg _ => do return (← inner arg).toNumber
    ofExcept (valueOfCall f args)
  | .index name position => do
    let items ← ofExcept (itemsOfName bindings name)
    let value ← inner position
    return itemAt items value.toNumber
  | .not operand => do return .bool !(← inner operand).truthy
  | .negative operand => do return .number (-(← inner operand).toNumber)
  | .single t => ofExcept (valueOfToken bindings t)
  | .unreadable slice => fail (.invalidExpression (.slice slice))

/-- What is known already needs no step of its own. -/
theorem Evaluation.andThen_ofExcept_ok (a : α) (second : α → Evaluation β) :
    andThen (ofExcept (.ok a)) second = second a := rfl

/-- **An evaluation** enters the slice and follows the rule for its shape. -/
theorem evaluate_eq (scope : Scope) (ts : List Token) :
    evaluate scope ts = nested scope.depthLimit ts
      ((Shape.read scope.precedence ts).run scope.bindings (evaluate scope)) := by
  have hread : Shape.read scope.precedence ts = (shapeOf scope.precedence ts).1 := rfl
  rw [evaluate, hread]
  congr 1
  -- the recursion carries a proof about the shape, so the shape is opened together with it
  generalize shapeOf scope.precedence ts = shape
  obtain ⟨s, rfl⟩ := shape
  cases s with
  | binary left op right =>
    change andThen _ (fun _ => andThen (ofExcept (operatorOfSymbol op)) _) = _
    rw [operatorOfSymbol_eq, andThen_ofExcept_ok]
    rfl
  | _ => rfl

/-! ### What goes through every rule -/

namespace Evaluation

/-- A relation between evaluations that goes through every rule: it holds of the steps in which
nothing is evaluated, and of two evaluations in a row if it holds of the first ones and, whatever
these are worth, of the second ones. -/
structure Congruence (R : (α : Type) → Evaluation α → Evaluation α → Prop) : Prop where
  ofExcept : ∀ {α : Type} (outcome : Except RuleError α), R α (ofExcept outcome) (ofExcept outcome)
  split : ∀ split : Split, R Unit (note (.split split)) (note (.split split))
  andThen : ∀ {α β : Type} {first first' : Evaluation α} {second second' : α → Evaluation β},
    R α first first' → (∀ a, R β (second a) (second' a)) →
      R β (andThen first second) (andThen first' second')

namespace Congruence

variable {R : (α : Type) → Evaluation α → Evaluation α → Prop}

theorem done (hR : Congruence R) (a : α) : R α (done a) (done a) := hR.ofExcept (.ok a)

theorem fail (hR : Congruence R) (e : RuleError) : R α (fail e) (fail e) := hR.ofExcept (.error e)

theorem each (hR : Congruence R) (f g : α → Evaluation β) {items : List α}
    (h : ∀ item ∈ items, R β (f item) (g item)) :
    R (List β) (each items fun item _ => f item) (each items fun item _ => g item) := by
  induction items with
  | nil => exact hR.done []
  | cons item items ih =>
    have hitems := ih fun other hother => h other (List.mem_cons_of_mem _ hother)
    refine hR.andThen (h item (List.mem_cons_self ..)) fun b => hR.andThen hitems fun bs => ?_
    exact hR.done (b :: bs)

end Congruence

end Evaluation

/-- **What holds of the evaluations of the parts holds of the rule**, if it goes through the steps
of an evaluation. -/
theorem Shape.run_of_congruence {R : (α : Type) → Evaluation α → Evaluation α → Prop}
    (hR : Congruence R) (bindings : Bindings) (inner inner' : List Token → Evaluation Value)
    (h : ∀ part ∈ s.parts, R Value (inner part) (inner' part)) :
    R Value (s.run bindings inner) (s.run bindings inner') := by
  -- what becomes of the value of a part evaluates nothing further
  have hthen : ∀ part ∈ s.parts, ∀ {γ : Type} (f : Value → γ),
      R γ (andThen (inner part) fun value => done (f value))
        (andThen (inner' part) fun value => done (f value)) := fun part hpart _ f =>
    hR.andThen (h part hpart) fun value => hR.done (f value)
  cases s with
  | empty => exact hR.fail _
  | unreadable slice => exact hR.fail _
  | single t => exact hR.ofExcept _
  | group interior => exact h interior (by simp [parts])
  | not operand => exact hthen operand (by simp [parts]) _
  | negative operand => exact hthen operand (by simp [parts]) _
  | binary left op right =>
    rw [run, run]
    refine hR.andThen (hR.split _) fun _ => ?_
    exact hR.andThen (h left (by simp [parts])) fun a => hthen right (by simp [parts]) _
  | index name position =>
    exact hR.andThen (hR.ofExcept _) fun items => hthen position (by simp [parts]) _
  | call name interior =>
    refine hR.andThen (hR.ofExcept _) fun f => hR.andThen ?_ fun args => hR.ofExcept _
    exact hR.each _ _ fun arg harg => hthen arg harg Value.toNumber

/-- A rule depends on how the parts are evaluated, and on nothing else. -/
theorem Shape.run_congr (bindings : Bindings) {f g : List Token → Evaluation Value}
    (h : ∀ part ∈ s.parts, f part = g part) : s.run bindings f = s.run bindings g := by
  have hR : Congruence fun _ first second => first = second := by
    refine ⟨fun _ => rfl, fun _ => rfl, fun hfirst hsecond => ?_⟩
    rw [hfirst, funext hsecond]
  exact Shape.run_of_congruence hR bindings f g h

/-! ### The depth is restored -/

namespace Evaluation

theorem andThen_of_error {first : Evaluation α} {e : RuleError}
    (h : (first depth).outcome = .error e) (second : α → Evaluation β) :
    andThen first second depth = ⟨.error e, (first depth).depth, (first depth).trace⟩ := by
  simp only [andThen, h]

theorem andThen_of_ok {first : Evaluation α} {a : α} (h : (first depth).outcome = .ok a)
    (second : α → Evaluation β) :
    andThen first second depth =
      ⟨(second a (first depth).depth).outcome, (second a (first depth).depth).depth,
        (first depth).trace ++ (second a (first depth).depth).trace⟩ := by
  simp only [andThen, h]

/-- An evaluation that leaves the depth as it found it. -/
def Restores (e : Evaluation α) : Prop := ∀ depth, (e depth).depth = depth

theorem restores_ofExcept (outcome : Except RuleError α) : Restores (ofExcept outcome) :=
  fun _ => rfl

theorem restores_note (event : Event) : Restores (note event) := fun _ => rfl

theorem restores_andThen {first : Evaluation α} {second : α → Evaluation β} (h : Restores first)
    (h' : ∀ a, Restores (second a)) : Restores (andThen first second) := by
  intro depth
  cases houtcome : (first depth).outcome with
  | error e =>
    rw [andThen_of_error houtcome]
    exact h depth
  | ok a =>
    rw [andThen_of_ok houtcome, h depth]
    exact h' a depth

theorem restores_nested {inside : Evaluation α} (h : Restores inside) (limit : Nat)
    (slice : List Token) : Restores (nested limit slice inside) := by
  intro depth
  unfold nested
  split
  · rfl
  · have := h (depth + 1)
    simp only [this]
    omega

theorem congruence_restores : Congruence fun _ first _ => Restores first :=
  ⟨restores_ofExcept, fun _ => restores_note _, restores_andThen⟩

theorem restores_each {f : α → Evaluation β} {items : List α}
    (h : ∀ item ∈ items, Restores (f item)) : Restores (each items fun item _ => f item) :=
  congruence_restores.each f f h

end Evaluation

theorem Shape.restores_run {inner : List Token → Evaluation Value}
    (h : ∀ part ∈ s.parts, Restores (inner part)) : Restores (s.run bindings inner) :=
  Shape.run_of_congruence congruence_restores bindings inner inner h

theorem restores_evaluate (scope : Scope) (ts : List Token) : Restores (evaluate scope ts) := by
  induction ts using Shape.induction scope.precedence with
  | step ts ih =>
    rw [evaluate_eq]
    exact restores_nested (Shape.restores_run ih) scope.depthLimit ts

/-- **An evaluation leaves the depth as it found it**, whether it succeeds or fails. -/
theorem depth_evaluate (scope : Scope) (ts : List Token) (depth : Nat) :
    (evaluate scope ts depth).depth = depth :=
  restores_evaluate scope ts depth

/-! ### The outcome alone -/

namespace Evaluation

theorem outcome_andThen {first : Evaluation α} (h : Restores first) (second : α → Evaluation β)
    (depth : Nat) :
    (andThen first second depth).outcome =
      (first depth).outcome.bind fun a => (second a depth).outcome := by
  cases houtcome : (first depth).outcome with
  | error e => rw [andThen_of_error houtcome, Except.bind]
  | ok a => rw [andThen_of_ok houtcome, h depth, Except.bind]

theorem outcome_map (first : Evaluation α) (g : α → β) (depth : Nat) :
    (andThen first (fun a => done (g a)) depth).outcome =
      (first depth).outcome.bind fun a => .ok (g a) := by
  cases houtcome : (first depth).outcome with
  | error e => rw [andThen_of_error houtcome, Except.bind]
  | ok a => rw [andThen_of_ok houtcome, Except.bind]; rfl

theorem outcome_each {f : α → Evaluation β} {items : List α} (h : ∀ item ∈ items, Restores (f item))
    (depth : Nat) :
    (each items (fun item _ => f item) depth).outcome =
      items.mapM fun item => (f item depth).outcome := by
  induction items with
  | nil => rfl
  | cons item items ih =>
    have hitems : ∀ other ∈ items, Restores (f other) := fun other hother =>
      h other (List.mem_cons_of_mem _ hother)
    rw [each, outcome_andThen (h item (List.mem_cons_self ..)), List.mapM_cons, ← ih hitems]
    congr 1
    funext b
    exact outcome_andThen (restores_each hitems) (fun bs => done (b :: bs)) depth

end Evaluation

/-- The value of a shape whose parts have the outcomes `inner`. -/
def Shape.value (bindings : Bindings) (inner : List Token → Except RuleError Value) (s : Shape) :
    Except RuleError Value :=
  match s with
  | .empty => .error (.invalidExpression .empty)
  | .binary left op right => do
    let a ← inner left
    let b ← inner right
    return op.apply a b
  | .group interior => inner interior
  | .call name interior => do
    let f ← functionOfName name
    let args ← (arguments interior).mapM fun arg => do return (← inner arg).toNumber
    valueOfCall f args
  | .index name position => do
    let items ← itemsOfName bindings name
    let value ← inner position
    return itemAt items value.toNumber
  | .not operand => do return .bool !(← inner operand).truthy
  | .negative operand => do return .number (-(← inner operand).toNumber)
  | .single t => valueOfToken bindings t
  | .unreadable slice => .error (.invalidExpression (.slice slice))

theorem Shape.outcome_run {inner : List Token → Evaluation Value}
    (h : ∀ part ∈ s.parts, Restores (inner part)) (depth : Nat) :
    (s.run bindings inner depth).outcome =
      s.value bindings fun part => (inner part depth).outcome := by
  cases s with
  | empty => rfl
  | binary left op right =>
    have hleft := h left (by simp [parts])
    have hright := h right (by simp [parts])
    refine (outcome_andThen (restores_note _) _ depth).trans ?_
    refine (outcome_andThen hleft _ depth).trans (congrArg _ (funext fun a => ?_))
    exact outcome_andThen hright _ depth
  | group interior => rfl
  | call name interior =>
    refine (outcome_andThen (restores_ofExcept _) _ depth).trans (congrArg _ (funext fun f => ?_))
    have hargs : ∀ arg ∈ arguments interior,
        Restores (andThen (inner arg) fun value => done value.toNumber) := fun arg harg =>
      restores_andThen (h arg harg) fun value => restores_ofExcept (.ok value.toNumber)
    have hnumber :
        (fun arg => (andThen (inner arg) (fun value => done value.toNumber) depth).outcome) =
          fun arg => (do return (← (inner arg depth).outcome).toNumber : Except RuleError Float) :=
      funext fun arg => outcome_map (inner arg) Value.toNumber depth
    refine (outcome_andThen (restores_each hargs) _ depth).trans ?_
    rw [outcome_each hargs, hnumber]
    rfl
  | index name position =>
    refine (outcome_andThen (restores_ofExcept _) _ depth).trans (congrArg _ (funext fun f => ?_))
    exact outcome_andThen (h position (by simp [parts])) _ depth
  | not operand => exact outcome_andThen (h operand (by simp [parts])) _ depth
  | negative operand => exact outcome_andThen (h operand (by simp [parts])) _ depth
  | single t => rfl
  | unreadable slice => rfl

/-- **The outcome of an evaluation** is that of the rule for the shape, one level deeper, unless
that passes the limit. -/
theorem outcome_evaluate (scope : Scope) (ts : List Token) (depth : Nat) :
    (evaluate scope ts depth).outcome =
      if scope.depthLimit < depth + 1 then .error (.tooDeep scope.depthLimit)
      else (Shape.read scope.precedence ts).value scope.bindings fun part =>
        (evaluate scope part (depth + 1)).outcome := by
  rw [evaluate_eq, nested]
  split
  · rfl
  · exact Shape.outcome_run (fun part _ => restores_evaluate scope part) (depth + 1)

/-- The outcome for a slice of known shape, where there is depth left. -/
theorem outcome_of_read {scope : Scope} {ts : List Token} {s : Shape} {depth : Nat}
    (hdepth : depth + 1 ≤ scope.depthLimit) (hread : Shape.read scope.precedence ts = s) :
    (evaluate scope ts depth).outcome =
      s.value scope.bindings fun part => (evaluate scope part (depth + 1)).outcome := by
  rw [outcome_evaluate, if_neg (by omega), hread]

/-- A token that is no symbol has its own value as a slice, where there is depth left. -/
theorem outcome_word {scope : Scope} {t : Token} {depth : Nat}
    (hdepth : depth + 1 ≤ scope.depthLimit) (ht : ∀ s, t ≠ .symbol s) :
    (evaluate scope [t] depth).outcome = valueOfToken scope.bindings t :=
  outcome_of_read hdepth (Shape.read_word ht scope.precedence)

end RuleConditions
