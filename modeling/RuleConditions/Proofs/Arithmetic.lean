import RuleConditions.Proofs.Meaning
import RuleConditions.Proofs.NaN

/-!
# Arithmetic over single tokens

`Calculation k` is the type of the trees with the operators of arithmetic, the sign and brackets, over
any tokens that are no symbols; as in `Expr`, `k` is the lowest rank that may stand at the root.
Other than there a leaf may be a number word that no tokenizer makes.

NaN spreads to the root: if a leaf counts as NaN, or a divisor as zero, the tree has no other value than
NaN (`Calculation.isNaN_of_denote`, by induction on the tree).  The value of a divisor does not depend
on the depth at which it is evaluated, since it is what the divisor denotes
(`Calculation.denote_of_outcome`).
-/

namespace RuleConditions

open Number (nan)

/-! ### Trees -/

def ArithmeticOp.rank (op : ArithmeticOp) : Nat := (Operator.arithmetic op).rank

mutual

/-- An operand of an arithmetic operator. -/
inductive Term : Type where
  | token (t : Token) (word : ∀ s, t ≠ .symbol s)
  | group (inner : Calculation 0)
  | negative (operand : Term)

/-- An arithmetic expression with an operand or an operator of rank `k` or higher at the root. -/
inductive Calculation : Nat → Type where
  | operand {k : Nat} (o : Term) : Calculation k
  | binary {k : Nat} (op : ArithmeticOp) (tight : k ≤ op.rank) (left : Calculation op.rank)
      (right : Calculation (op.rank + 1)) : Calculation k

end

mutual

def Term.tokens : Term → List Token
  | .token t _ => [t]
  | .group inner => .symbol (.opening .round) :: (inner.tokens ++ [.symbol (.closing .round)])
  | .negative operand => .symbol (.operator (.arithmetic .subtract)) :: operand.tokens

/-- The slice of a calculation. -/
def Calculation.tokens : {k : Nat} → Calculation k → List Token
  | _, .operand o => o.tokens
  | _, .binary op _ left right =>
    left.tokens ++ .symbol (.operator (.arithmetic op)) :: right.tokens

end

mutual

def Term.hasOperator : Term → Bool
  | .token _ _ => false
  | .group inner => inner.hasOperator
  | .negative _ => true

/-- Whether the calculation is more than a token in brackets. -/
def Calculation.hasOperator : {k : Nat} → Calculation k → Bool
  | _, .operand o => o.hasOperator
  | _, .binary _ _ _ _ => true

end

mutual

def Term.leaves : Term → List Token
  | .token t _ => [t]
  | .group inner => inner.leaves
  | .negative operand => operand.leaves

/-- The operands of one token, from left to right. -/
def Calculation.leaves : {k : Nat} → Calculation k → List Token
  | _, .operand o => o.leaves
  | _, .binary _ _ left right => left.leaves ++ right.leaves

end

mutual

def Term.divisors : Term → List (List Token)
  | .token _ _ => []
  | .group inner => inner.divisors
  | .negative operand => operand.divisors

/-- The slices of the right operands of divisions and remainders. -/
def Calculation.divisors : {k : Nat} → Calculation k → List (List Token)
  | _, .operand o => o.divisors
  | _, .binary op _ left right =>
    (if op.divides then [right.tokens] else []) ++ (left.divisors ++ right.divisors)

end

/-! ### Reading -/

mutual

theorem Term.derives : (o : Term) → Derives .any .operand o.tokens
  | .token _ word => .word word trivial
  | .group inner => .group inner.derives
  | .negative operand => .negative operand.derives

theorem Calculation.derives : {k : Nat} → (e : Calculation k) → Derives .any .expression e.tokens
  | _, .operand o => .operand o.derives
  | _, .binary op _ left right => left.derives.append (.arithmetic op) right.derives

end

/-- The shape of an operand. -/
def Term.shape : Term → Shape
  | .token t _ => .single t
  | .group inner => .group inner.tokens
  | .negative operand => .negative operand.tokens

theorem Term.read_tokens (o : Term) : Shape.read .conventional o.tokens = o.shape := by
  refine Shape.read_eq ?_ ?_ o.derives.find?_eq_none
  · cases o with
    | token t word => exact word
    | group inner => exact inner.derives.bracketsPair
    | negative operand => trivial
  · cases o <;> rfl

theorem Calculation.le_rank {k : Nat} (e : Calculation k) {c : Cut}
    (hc : c ∈ Cut.candidates .conventional e.tokens) : k ≤ c.op.rank := by
  match e with
  | .operand o =>
    rw [tokens, Cut.find?_eq_none_iff.mp o.derives.find?_eq_none] at hc
    exact absurd hc List.not_mem_nil
  | .binary op tight left right =>
    rw [tokens, left.derives.candidates_binary, List.mem_append, List.mem_cons, List.mem_map,
      List.mem_map] at hc
    obtain ⟨d, hd, rfl⟩ | rfl | ⟨d, hd, rfl⟩ := hc
    · rw [Cut.op_widen]
      exact Nat.le_trans tight (left.le_rank hd)
    · exact tight
    · rw [Cut.op_widen]
      exact Nat.le_trans tight (Nat.le_of_succ_le (right.le_rank hd))

theorem Calculation.find?_binary (op : ArithmeticOp) (left : Calculation op.rank)
    (right : Calculation (op.rank + 1)) :
    Cut.find? .conventional (left.tokens ++ .symbol (.operator (.arithmetic op)) :: right.tokens) =
      some ⟨left.tokens, .arithmetic op, right.tokens⟩ :=
  left.derives.find?_binary (fun _ => left.le_rank) fun _ => right.le_rank

/-! ### Denotations -/

mutual

def Term.denote (bindings : Bindings) : Term → Except RuleError Value
  | .token t _ => valueOfToken bindings t
  | .group inner => inner.denote bindings
  | .negative operand => do return .number (-(← operand.denote bindings).toNumber)

/-- The value of a calculation. -/
def Calculation.denote (bindings : Bindings) : {k : Nat} → Calculation k → Except RuleError Value
  | _, .operand o => o.denote bindings
  | _, .binary op _ left right => do
    let a ← left.denote bindings
    let b ← right.denote bindings
    return .number (op.apply a.toNumber b.toNumber)

end

variable {scope : Scope} {depth : Nat} {v : Value}

/-- If an operand has a value, its shape gives it. -/
theorem Term.value_of_outcome (hp : scope.precedence = .conventional) (o : Term)
    (h : (evaluate scope o.tokens depth).outcome = .ok v) :
    (o.shape.value scope.bindings fun part => (evaluate scope part (depth + 1)).outcome) = .ok v := by
  rw [outcome_evaluate, hp, o.read_tokens] at h
  split at h
  · cases h
  · exact h

theorem Calculation.values_of_outcome (hp : scope.precedence = .conventional) (op : ArithmeticOp)
    (left : Calculation op.rank) (right : Calculation (op.rank + 1))
    (h : (evaluate scope (left.tokens ++ .symbol (.operator (.arithmetic op)) :: right.tokens)
      depth).outcome = .ok v) :
    ∃ a b, (evaluate scope left.tokens (depth + 1)).outcome = .ok a ∧
      (evaluate scope right.tokens (depth + 1)).outcome = .ok b ∧
      .number (op.apply a.toNumber b.toNumber) = v := by
  rw [outcome_evaluate, hp, Shape.read_of_find?_eq_some (find?_binary op left right)] at h
  split at h
  · cases h
  · obtain ⟨a, ha, h⟩ := bind_eq_ok_iff.mp h
    obtain ⟨b, hb, h⟩ := bind_eq_ok_iff.mp h
    exact ⟨a, b, ha, hb, Except.ok.inj h⟩

mutual

theorem Term.denote_of_outcome (hp : scope.precedence = .conventional) :
    (o : Term) → (depth : Nat) → (v : Value) →
      (evaluate scope o.tokens depth).outcome = .ok v → o.denote scope.bindings = .ok v
  | .token t word, depth, v, h => Term.value_of_outcome hp (.token t word) h
  | .group inner, depth, v, h =>
    inner.denote_of_outcome hp (depth + 1) v (Term.value_of_outcome hp (.group inner) h)
  | .negative operand, depth, v, h => by
    obtain ⟨w, hw, hv⟩ := bind_eq_ok_iff.mp (Term.value_of_outcome hp (.negative operand) h)
    rw [Term.denote, operand.denote_of_outcome hp (depth + 1) w hw]
    exact hv

/-- **A value is what the tree denotes**, at whatever depth it came about. -/
theorem Calculation.denote_of_outcome (hp : scope.precedence = .conventional) :
    {k : Nat} → (e : Calculation k) → (depth : Nat) → (v : Value) →
      (evaluate scope e.tokens depth).outcome = .ok v → e.denote scope.bindings = .ok v
  | _, .operand o, depth, v, h => o.denote_of_outcome hp depth v h
  | _, .binary op _ left right, depth, v, h => by
    obtain ⟨a, b, ha, hb, rfl⟩ := Calculation.values_of_outcome hp op left right h
    rw [Calculation.denote, left.denote_of_outcome hp (depth + 1) a ha,
      right.denote_of_outcome hp (depth + 1) b hb]
    rfl

end

mutual

theorem Term.exists_number_of_denote {bindings : Bindings} :
    (o : Term) → (v : Value) → o.hasOperator = true → o.denote bindings = .ok v →
      ∃ x, v = .number x
  | .group inner, v, hoperator, h => inner.exists_number_of_denote v hoperator h
  | .negative operand, v, _, h => by
    obtain ⟨w, -, hv⟩ := bind_eq_ok_iff.mp h
    exact ⟨_, (Except.ok.inj hv).symm⟩

theorem Calculation.exists_number_of_denote {bindings : Bindings} :
    {k : Nat} → (e : Calculation k) → (v : Value) → e.hasOperator = true →
      e.denote bindings = .ok v → ∃ x, v = .number x
  | _, .operand o, v, hoperator, h => o.exists_number_of_denote v hoperator h
  | _, .binary op _ left right, v, _, h => by
    obtain ⟨a, -, h⟩ := bind_eq_ok_iff.mp h
    obtain ⟨b, -, h⟩ := bind_eq_ok_iff.mp h
    exact ⟨_, (Except.ok.inj h).symm⟩

end

/-! ### NaN spreads -/

/-- One of the tokens counts as NaN, or one of the slices as a zero of either sign. -/
def Scope.Spoils (scope : Scope) (leaves : List Token) (divisors : List (List Token)) : Prop :=
  (∃ t ∈ leaves, ∃ w, valueOfToken scope.bindings t = .ok w ∧ w.toNumber.isNaN = true) ∨
    ∃ part ∈ divisors, ∃ depth w, (evaluate scope part depth).outcome = .ok w ∧
      (w.toNumber == 0) = true

theorem Scope.Spoils.of_append {leaves leaves' : List Token} {divisors divisors' : List (List Token)}
    (h : scope.Spoils (leaves ++ leaves') (divisors ++ divisors')) :
    scope.Spoils leaves divisors ∨ scope.Spoils leaves' divisors' := by
  obtain ⟨t, ht, hleaf⟩ | ⟨part, hpart, hzero⟩ := h
  · exact (List.mem_append.mp ht).imp (fun ht => .inl ⟨t, ht, hleaf⟩) fun ht => .inl ⟨t, ht, hleaf⟩
  · exact (List.mem_append.mp hpart).imp (fun hpart => .inr ⟨part, hpart, hzero⟩)
      fun hpart => .inr ⟨part, hpart, hzero⟩

mutual

theorem Term.isNaN_of_denote (hp : scope.precedence = .conventional) :
    (o : Term) → (v : Value) → o.denote scope.bindings = .ok v →
      scope.Spoils o.leaves o.divisors → v.toNumber.isNaN = true
  | .token t word, v, h, hspoils => by
    obtain ⟨u, hu, w, hw, hnan⟩ | ⟨part, hpart, -⟩ := hspoils
    · obtain rfl := List.mem_singleton.mp hu
      obtain rfl := Except.ok.inj (hw.symm.trans h)
      exact hnan
    · cases hpart
  | .group inner, v, h, hspoils => inner.isNaN_of_denote hp v h hspoils
  | .negative operand, v, h, hspoils => by
    obtain ⟨w, hw, hv⟩ := bind_eq_ok_iff.mp h
    obtain rfl := Except.ok.inj hv
    exact Number.isNaN_neg (operand.isNaN_of_denote hp w hw hspoils)

theorem Calculation.isNaN_of_denote (hp : scope.precedence = .conventional) :
    {k : Nat} → (e : Calculation k) → (v : Value) → e.denote scope.bindings = .ok v →
      scope.Spoils e.leaves e.divisors → v.toNumber.isNaN = true
  | _, .operand o, v, h, hspoils => o.isNaN_of_denote hp v h hspoils
  | _, .binary op _ left right, v, h, hspoils => by
    obtain ⟨a, ha, h⟩ := bind_eq_ok_iff.mp h
    obtain ⟨b, hb, h⟩ := bind_eq_ok_iff.mp h
    obtain rfl := Except.ok.inj h
    rw [Calculation.leaves, Calculation.divisors, ← List.nil_append (left.leaves ++ right.leaves)]
      at hspoils
    obtain hroot | hside := hspoils.of_append
    · -- the right side itself is a divisor that counts as zero
      obtain ⟨t, ht, -⟩ | ⟨part, hpart, depth, w, hw, hzero⟩ := hroot
      · cases ht
      · split at hpart
        · rename_i hdivides
          obtain rfl := List.mem_singleton.mp hpart
          have hb' := right.denote_of_outcome hp depth w hw
          obtain rfl := Except.ok.inj (hb.symm.trans hb')
          exact ArithmeticOp.isNaN_apply_zero hdivides a.toNumber hzero
        · cases hpart
    · apply op.isNaN_apply
      exact hside.of_append.imp (left.isNaN_of_denote hp a ha) (right.isNaN_of_denote hp b hb)

end

/-- **NaN poisons arithmetic and silences comparisons.**  A divisor counts as zero if it does so at any
depth at which it has a value. -/
theorem isNaN_outcome_and_apply (bindings : Bindings) (maxDepth : Nat) :
    let scope : Scope := ⟨bindings, .conventional, maxDepth⟩
    (∀ (k : Nat) (e : Calculation k) (depth : Nat) (v : Value), e.hasOperator = true →
      (evaluate scope e.tokens depth).outcome = .ok v →
      (∃ t ∈ e.leaves, ∃ w, valueOfToken bindings t = .ok w ∧ w.toNumber.isNaN = true) ∨
        (∃ part ∈ e.divisors, ∃ depth w, (evaluate scope part depth).outcome = .ok w ∧
          (w.toNumber == 0) = true) →
      ∃ x, v = .number x ∧ x.isNaN = true) ∧
    ∀ (x : Float) (v : Value) (op : ComparisonOp), x.isNaN = true →
      op.apply (.number x) v = op.isDenial ∧ op.apply v (.number x) = op.isDenial := by
  intro scope
  have hp : scope.precedence = .conventional := rfl
  refine ⟨fun k e depth v hoperator h hspoils => ?_, fun x v op hx => ?_⟩
  · have hdenote := e.denote_of_outcome hp depth v h
    obtain ⟨x, rfl⟩ := e.exists_number_of_denote v hoperator hdenote
    exact ⟨x, rfl, e.isNaN_of_denote hp (.number x) hdenote hspoils⟩
  · have hincomparable := Value.incomparable_of_isNaN (v := v) (.inl hx)
    exact ⟨op.apply_of_incomparable hincomparable, op.apply_of_incomparable hincomparable.symm⟩

/-- In `7 % -0 - null` the divisor is a zero, of the other sign than the one that is written. -/
theorem isNaN_outcome_and_apply_of_zero :
    let e : Calculation 0 := .binary .subtract (Nat.zero_le _)
      (.binary .remainder (by decide) (.operand (.token (.number "7") nofun))
        (.operand (.negative (.token (.number "0") nofun))))
      (.operand (.token (.ident "null") nofun))
    e.hasOperator = true ∧
      (∃ x, (evaluate ⟨.empty, .conventional, 64⟩ e.tokens 0).outcome = .ok (.number x) ∧
        x.isNaN = true) ∧
      nan.isNaN = true ∧ ComparisonOp.unequal.apply (.number nan) (.number nan) = true := by
  intro e
  let scope : Scope := ⟨.empty, .conventional, 64⟩
  have hp : scope.precedence = .conventional := rfl
  let divisor : Expr 5 := .operand (.negative (.number "0" (by decide)))
  let tree : Expr 0 := .binary (.arithmetic .subtract) (by decide)
    (.binary (.arithmetic .remainder) (by decide) (.operand (.number "7" (by decide))) divisor)
    (.operand (.name "null"))
  have hdivisor : (evaluate scope divisor.tokens 0).outcome =
      .ok (.number (-(decimal ['0']))) := divisor.outcome_eq_denote hp 0 (by decide)
  have hzero : ((Value.number (-(decimal ['0']))).toNumber == 0) = true := by decide +kernel
  obtain ⟨v, hv⟩ : ∃ v, (evaluate scope e.tokens 0).outcome = .ok v :=
    ⟨_, (tree.outcome_eq_denote hp 0 (by decide)).trans rfl⟩
  obtain ⟨harithmetic, hcomparison⟩ := isNaN_outcome_and_apply .empty 64
  obtain ⟨x, rfl, hx⟩ := harithmetic 0 e 0 v rfl hv
    (.inr ⟨divisor.tokens, List.mem_singleton.mpr rfl, 0, _, hdivisor, hzero⟩)
  exact ⟨rfl, ⟨x, hv, hx⟩, Number.isNaN_nan, (hcomparison nan _ .unequal Number.isNaN_nan).1⟩

end RuleConditions
