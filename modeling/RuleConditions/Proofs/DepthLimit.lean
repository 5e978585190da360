import RuleConditions.Proofs.Meaning

/-!
# How much depth an evaluation needs

The height of a tree is the depth that its evaluation needs, no more and no less.  With as much depth
left the slice of the tree comes to what the tree denotes (`Expr.outcome_eq_denote`).  With less, a
tree that denotes a value is too deep (`Expr.outcome_eq_tooDeep`): operands that are low enough have
their values, so nothing fails before the first operand that is too high, and its error is passed on.

A slice that is no expression has no height, but it never needs more depth than it has tokens, and
one level for an empty part (`failsOnly_evaluate`).
-/

namespace RuleConditions

variable {scope : Scope} {depth : Nat}

/-- An operand is too deep if there is no depth left for it, or if the rule for its shape says so. -/
theorem Operand.outcome_eq_tooDeep_of_shape (o : Operand) (hp : scope.precedence = .conventional)
    (h : depth < scope.depthLimit →
      (o.shape.value scope.bindings fun part => (evaluate scope part (depth + 1)).outcome) =
        .error (.tooDeep scope.depthLimit)) :
    (evaluate scope o.tokens depth).outcome = .error (.tooDeep scope.depthLimit) := by
  rw [RuleConditions.outcome_evaluate, hp, o.read_tokens]
  split
  · rfl
  · exact h (by omega)

mutual

theorem Operand.outcome_eq_tooDeep (hp : scope.precedence = .conventional) :
    (o : Operand) → (depth : Nat) → scope.depthLimit < depth + o.height →
      (∃ v, o.denote scope.bindings = .ok v) →
      (evaluate scope o.tokens depth).outcome = .error (.tooDeep scope.depthLimit)
  | .number _ _, depth, hdepth, _ | .name _, depth, hdepth, _ | .text _, depth, hdepth, _ => by
    -- a single token needs one level, so there is none left
    rw [Operand.height] at hdepth
    exact Operand.outcome_eq_tooDeep_of_shape _ hp fun hroom => absurd hdepth (by omega)
  | .group inner, depth, hdepth, hok => by
    rw [Operand.height] at hdepth
    rw [Operand.denote] at hok
    refine Operand.outcome_eq_tooDeep_of_shape _ hp fun _ => ?_
    exact inner.outcome_eq_tooDeep hp (depth + 1) (by omega) hok
  | .call function args, depth, hdepth, ⟨v, hv⟩ => by
    rw [Operand.height] at hdepth
    rw [Operand.denote] at hv
    obtain ⟨f, hf, hv⟩ := bind_eq_ok_iff.mp hv
    obtain ⟨xs, hxs, -⟩ := bind_eq_ok_iff.mp hv
    refine Operand.outcome_eq_tooDeep_of_shape _ hp fun hroom => ?_
    have hargs := Expr.outcomes_eq_tooDeep hp args (depth + 1) (by omega) (by omega) ⟨xs, hxs⟩
    rw [Operand.shape, Shape.value, hf]
    rw [Derives.arguments_commaSeparated (Expr.derives_tokensAll args), hargs]
    rfl
  | .index array position, depth, hdepth, ⟨v, hv⟩ => by
    rw [Operand.height] at hdepth
    rw [Operand.denote] at hv
    obtain ⟨items, hitems, hv⟩ := bind_eq_ok_iff.mp hv
    obtain ⟨value, hvalue, -⟩ := bind_eq_ok_iff.mp hv
    refine Operand.outcome_eq_tooDeep_of_shape _ hp fun _ => ?_
    rw [Operand.shape, Shape.value, hitems]
    rw [position.outcome_eq_tooDeep hp (depth + 1) (by omega) ⟨value, hvalue⟩]
    rfl
  | .not operand, depth, hdepth, ⟨v, hv⟩ => by
    rw [Operand.height] at hdepth
    rw [Operand.denote] at hv
    obtain ⟨value, hvalue, -⟩ := bind_eq_ok_iff.mp hv
    refine Operand.outcome_eq_tooDeep_of_shape _ hp fun _ => ?_
    rw [Operand.shape, Shape.value]
    rw [operand.outcome_eq_tooDeep hp (depth + 1) (by omega) ⟨value, hvalue⟩]
    rfl
  | .negative operand, depth, hdepth, ⟨v, hv⟩ => by
    rw [Operand.height] at hdepth
    rw [Operand.denote] at hv
    obtain ⟨value, hvalue, -⟩ := bind_eq_ok_iff.mp hv
    refine Operand.outcome_eq_tooDeep_of_shape _ hp fun _ => ?_
    rw [Operand.shape, Shape.value]
    rw [operand.outcome_eq_tooDeep hp (depth + 1) (by omega) ⟨value, hvalue⟩]
    rfl

/-- **An expression with a value is too deep** where there is less depth left than it is high. -/
theorem Expr.outcome_eq_tooDeep (hp : scope.precedence = .conventional) :
    {k : Nat} → (e : Expr k) → (depth : Nat) → scope.depthLimit < depth + e.height →
      (∃ v, e.denote scope.bindings = .ok v) →
      (evaluate scope e.tokens depth).outcome = .error (.tooDeep scope.depthLimit)
  | _, .operand o, depth, hdepth, hok => by
    rw [Expr.height] at hdepth
    rw [Expr.denote] at hok
    rw [Expr.tokens]
    exact o.outcome_eq_tooDeep hp depth hdepth hok
  | _, .binary op _ left right, depth, hdepth, ⟨v, hv⟩ => by
    rw [Expr.height] at hdepth
    rw [Expr.denote] at hv
    obtain ⟨a, ha, hv⟩ := bind_eq_ok_iff.mp hv
    obtain ⟨b, hb, -⟩ := bind_eq_ok_iff.mp hv
    rw [Expr.tokens]
    by_cases hroom : depth < scope.depthLimit
    · rw [Expr.outcome_evaluate_binary op left right hp hroom]
      by_cases hleft : depth + 1 + left.height ≤ scope.depthLimit
      · -- the left operand is low enough, so it is the right one that is too high
        rw [left.outcome_eq_denote hp (depth + 1) hleft, ha]
        rw [right.outcome_eq_tooDeep hp (depth + 1) (by omega) ⟨b, hb⟩]
        rfl
      · rw [left.outcome_eq_tooDeep hp (depth + 1) (by omega) ⟨a, ha⟩]
        rfl
    · rw [RuleConditions.outcome_evaluate, if_pos (by omega)]

/-- The first argument that is too high is too deep, and so is the call. -/
theorem Expr.outcomes_eq_tooDeep (hp : scope.precedence = .conventional) :
    (es : List (Expr 0)) → (depth : Nat) → depth ≤ scope.depthLimit →
      scope.depthLimit < depth + Expr.heightAll es →
      (∃ xs, Expr.denoteAll scope.bindings es = .ok xs) →
      ((Expr.tokensAll es).mapM fun ts => do
        return (← (evaluate scope ts depth).outcome).toNumber) =
          .error (.tooDeep scope.depthLimit)
  | [], depth, hlimit, hdepth, _ => by
    rw [Expr.heightAll] at hdepth
    exact absurd hdepth (by omega)
  | e :: es, depth, hlimit, hdepth, ⟨xs, hxs⟩ => by
    rw [Expr.heightAll] at hdepth
    rw [Expr.denoteAll] at hxs
    obtain ⟨value, hvalue, hxs⟩ := bind_eq_ok_iff.mp hxs
    obtain ⟨ys, hys, -⟩ := bind_eq_ok_iff.mp hxs
    rw [Expr.tokensAll, List.mapM_cons]
    by_cases hfirst : depth + e.height ≤ scope.depthLimit
    · rw [e.outcome_eq_denote hp depth hfirst, hvalue]
      rw [Expr.outcomes_eq_tooDeep hp es depth hlimit (by omega) ⟨ys, hys⟩]
      rfl
    · rw [e.outcome_eq_tooDeep hp depth (by omega) ⟨value, hvalue⟩]
      rfl

end

/-- **The height of an expression is the depth that it needs**: under the conventional precedence
the slice of a tree that denotes a value has that value if there is as much depth left as the tree
is high, and is too deep otherwise.  Under either precedence, with a level more than it has tokens
no slice is too deep, whether it is an expression or not. -/
theorem outcome_evaluate_tokens_eq_ite (bindings : Bindings) (maxDepth depth : Nat) :
    (∀ (k : Nat) (e : Expr k) (v : Value), e.denote bindings = .ok v →
      (evaluate ⟨bindings, .conventional, maxDepth⟩ e.tokens depth).outcome =
        if depth + e.height ≤ min maxDepth 256 then .ok v
        else .error (.tooDeep (min maxDepth 256))) ∧
    ∀ (p : Precedence) (ts : List Token), depth + (ts.length + 1) ≤ min maxDepth 256 →
      ∀ max, (evaluate ⟨bindings, p, maxDepth⟩ ts depth).outcome ≠ .error (.tooDeep max) := by
  refine ⟨fun k e v hv => ?_, fun p ts hdepth max htooDeep => ?_⟩
  · have hlimit : (Scope.mk bindings .conventional maxDepth).depthLimit = min maxDepth 256 := rfl
    split
    · rename_i henough
      rw [e.outcome_eq_denote rfl depth (by rwa [hlimit])]
      exact hv
    · rw [e.outcome_eq_tooDeep rfl depth (by rw [hlimit]; omega) ⟨v, hv⟩, hlimit]
  · have hlimit : depth + ts.length < (Scope.mk bindings p maxDepth).depthLimit :=
      Nat.lt_of_succ_le hdepth
    exact failsOnly_evaluate ⟨bindings, p, maxDepth⟩ ts depth hlimit _ htooDeep max rfl

/-- `true || (false)` needs three levels, one for the operator, one for the group and one for what
is in it, and 256 is the greatest limit. -/
theorem outcome_evaluate_tokens_eq_ite_of_or :
    let e : Expr 0 := .binary (.logical .or) (by decide) (.operand (.name "true"))
      (.operand (.group (.operand (.name "false"))))
    e.denote .empty = .ok (.bool true) ∧
      (evaluate ⟨.empty, .conventional, 3⟩ e.tokens 0).outcome = .ok (.bool true) ∧
      (evaluate ⟨.empty, .conventional, 3⟩ e.tokens 1).outcome = .error (.tooDeep 3) ∧
      (evaluate ⟨.empty, .conventional, 1000⟩ e.tokens 254).outcome = .error (.tooDeep 256) ∧
      0 + ([.symbol .comma, .symbol .bang] : List Token).length + 1 ≤ min 3 256 ∧
      ∀ max, (evaluate ⟨.empty, .legacy, 3⟩ [.symbol .comma, .symbol .bang] 0).outcome ≠
        .error (.tooDeep max) := by
  intro e
  have hv : e.denote .empty = .ok (.bool true) := rfl
  have hlength : 0 + ([.symbol .comma, .symbol .bang] : List Token).length + 1 ≤ min 3 256 := by
    decide
  exact ⟨hv, (outcome_evaluate_tokens_eq_ite .empty 3 0).1 0 e _ hv,
    (outcome_evaluate_tokens_eq_ite .empty 3 1).1 0 e _ hv,
    (outcome_evaluate_tokens_eq_ite .empty 1000 254).1 0 e _ hv, hlength,
    (outcome_evaluate_tokens_eq_ite .empty 3 0).2 .legacy _ hlength⟩

end RuleConditions
