import RuleConditions.Proofs.BracketWords
import RuleConditions.Proofs.Meaning
import RuleConditions.Proofs.Splits

/-!
# Groups

A pair of brackets around a slice changes nothing but the depth: what is inside is evaluated one
level deeper, with the same outcome and the same splits (`outcome_and_splits_group`).  This asks
nothing of the slice but that its brackets pair.  It need not be an expression, and it may begin and
end with groups of its own.

Two things could go wrong.  No operator inside the brackets may be taken for one outside, and none
is, since at each of them one more bracket is open (`Shape.IsEnclosed.find?_eq_none`).  And the
brackets must be seen as partners, which they are, since the slice leaves every stack of open
brackets as it found it (`Shape.read_tokens`).
-/

namespace RuleConditions

variable {s : Shape} {ts : List Token} {scope : Scope}

/-! ### Shapes in brackets -/

/-- A group, a call or an index with paired brackets inside. -/
def Shape.IsEnclosed : Shape → Prop
  | .group interior | .call _ interior | .index _ interior => bracketsPair interior
  | .empty | .binary .. | .not _ | .negative _ | .single _ | .unreadable _ => False

theorem Shape.IsEnclosed.isOperand (h : s.IsEnclosed) : s.IsOperand := by
  cases s with
  | group | call | index => exact h
  | _ => exact absurd h id

/-- Every operator of a shape in brackets stands inside the brackets. -/
theorem Shape.IsEnclosed.pos_of_mem_all (h : s.IsEnclosed) {q : Int × Cut}
    (hq : q ∈ Cut.all 0 none s.tokens) : 0 < q.1 := by
  cases s with
  | group interior => exact (Cut.inBrackets_of_mem_all_enclose .round h hq).1
  | call name interior => exact (Cut.inBrackets_of_mem_all_ident_enclose name .round h hq).1
  | index name position => exact (Cut.inBrackets_of_mem_all_ident_enclose name .square h hq).1
  | _ => exact absurd h id

/-- A slice in brackets is not split. -/
theorem Shape.IsEnclosed.find?_eq_none (h : s.IsEnclosed) :
    Cut.find? .conventional s.tokens = none :=
  Cut.find?_eq_none_of_ne_zero rfl fun _ hq => Int.ne_of_gt (h.pos_of_mem_all hq)

/-- **A slice in brackets** is evaluated by the rule for its shape, whatever the brackets hold. -/
theorem Shape.IsEnclosed.evaluate_tokens (h : s.IsEnclosed)
    (hp : scope.precedence = .conventional) :
    evaluate scope s.tokens = Evaluation.nested scope.depthLimit s.tokens
      (s.run scope.bindings (evaluate scope)) := by
  rw [evaluate_eq, hp, Shape.read_tokens h.isOperand h.find?_eq_none]

/-! ### A group and what is inside -/

/-- A group is evaluated as what is inside, one level deeper. -/
theorem evaluate_group (h : bracketsPair ts) (hp : scope.precedence = .conventional) :
    evaluate scope (Shape.group ts).tokens =
      Evaluation.nested scope.depthLimit (Shape.group ts).tokens (evaluate scope ts) := by
  have henclosed : (Shape.group ts).IsEnclosed := h
  exact henclosed.evaluate_tokens hp

/-- **Brackets around a slice change nothing but the depth**: where brackets pair, the slice with a
pair of brackets around it has the outcome and the splits of the slice alone, one level deeper. -/
theorem outcome_and_splits_group (bindings : Bindings) (maxDepth : Nat) (ts : List Token)
    (h : checkPairing ts = .ok ()) (depth : Nat) (hdepth : depth + 1 ≤ min maxDepth 256) :
    let scope : Scope := ⟨bindings, .conventional, maxDepth⟩
    let group := .symbol (.opening .round) :: (ts ++ [.symbol (.closing .round)])
    (evaluate scope group depth).outcome = (evaluate scope ts (depth + 1)).outcome ∧
      (evaluate scope group depth).splits = (evaluate scope ts (depth + 1)).splits := by
  intro scope group
  have hlimit : depth + 1 ≤ scope.depthLimit := hdepth
  have hgroup : evaluate scope group =
      Evaluation.nested scope.depthLimit group (evaluate scope ts) :=
    evaluate_group (checkPairing_eq_ok_iff.mp h) rfl
  rw [hgroup]
  refine ⟨?_, Evaluation.splits_nested hlimit⟩
  rw [Evaluation.nested, if_neg (by omega)]

/-- The slice `(true) || (false)` begins and ends with a bracket, and the two are not partners. -/
theorem outcome_and_splits_group_of_groups :
    let scope : Scope := ⟨.empty, .conventional, 4⟩
    let ts : List Token := [.symbol (.opening .round), .ident "true", .symbol (.closing .round),
      .symbol (.operator (.logical .or)), .symbol (.opening .round), .ident "false",
      .symbol (.closing .round)]
    checkPairing ts = .ok () ∧ 0 + 1 ≤ min 4 256 ∧
      (evaluate scope (.symbol (.opening .round) :: (ts ++ [.symbol (.closing .round)])) 0).outcome =
        .ok (.bool true) := by
  intro scope ts
  have hpair : checkPairing ts = .ok () := rfl
  have hdepth : 0 + 1 ≤ min 4 256 := by decide
  let e : Expr 0 := .binary (.logical .or) (by decide)
    (.operand (.group (.operand (.name "true")))) (.operand (.group (.operand (.name "false"))))
  have hheight : 1 + e.height ≤ scope.depthLimit := by decide
  have hts : (evaluate scope e.tokens 1).outcome = e.denote .empty :=
    e.outcome_eq_denote rfl 1 hheight
  exact ⟨hpair, hdepth, (outcome_and_splits_group .empty 4 ts hpair 0 hdepth).1.trans hts⟩

end RuleConditions
