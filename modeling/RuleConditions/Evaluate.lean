import RuleConditions.Literal
import RuleConditions.Operation
import RuleConditions.Run
import RuleConditions.Shape

/-!
# Evaluation

`evaluate` gives a slice the value that the rule for its shape prescribes.  A binary operator is
looked up before its operands are evaluated.  Both operands are always evaluated, the left one first,
so an error on either side makes the whole slice fail whatever the other side is worth.
-/

namespace RuleConditions

/-- No slice is nested more deeply, whatever the configured limit is. -/
def depthCeiling : Nat := 256

/-- What an evaluation depends on besides its tokens. -/
structure Scope where
  bindings : Bindings
  precedence : Precedence
  /-- The configured limit, which counts only up to `depthCeiling`. -/
  maxDepth : Nat

/-- The greatest depth of a slice under evaluation. -/
def Scope.depthLimit (scope : Scope) : Nat := min scope.maxDepth depthCeiling

/-- The operator that is applied for a binary operator. -/
def operatorOfSymbol (op : Operator) : Except RuleError Operator :=
  match op.lookUp? with
  | some found => .ok found
  | none => .error (.invalidExpression (.unsupported op))

/-- No operator is missing in the directory of its family. -/
theorem operatorOfSymbol_eq (op : Operator) : operatorOfSymbol op = .ok op := by
  rw [operatorOfSymbol, op.lookUp?_eq]

/-- The function that may be called by a name. -/
def functionOfName (name : String) : Except RuleError Function :=
  match Function.find? name with
  | some f => .ok f
  | none => .error (.unknownFunction name)

/-- The value of a call. -/
def valueOfCall (f : Function) (args : List Float) : Except RuleError Value :=
  match f.call args with
  | .ok x => .ok (.number x)
  | .error mismatch => .error (.arity mismatch)

/-- The shape of a slice, which is a shape of that slice. -/
def shapeOf (p : Precedence) (ts : List Token) : { s : Shape // s.tokens = ts } :=
  ⟨Shape.read p ts, Shape.tokens_read p ts⟩

open Evaluation in
/-- The value of a slice. -/
def evaluate (scope : Scope) (ts : List Token) : Evaluation Value :=
  nested scope.depthLimit ts <|
    match shapeOf scope.precedence ts with
    | ⟨.empty, _⟩ => fail (.invalidExpression .empty)
    | ⟨.binary left op right, _h⟩ => do
      note (.split ⟨op, left.length, ts.length⟩)
      let found ← ofExcept (operatorOfSymbol op)
      let a ← evaluate scope left
      let b ← evaluate scope right
      return found.apply a b
    | ⟨.group interior, _h⟩ => evaluate scope interior
    | ⟨.call name interior, _h⟩ => do
      let f ← ofExcept (functionOfName name)
      let args ← each (arguments interior) fun arg _mem => do
        return (← evaluate scope arg).toNumber
      ofExcept (valueOfCall f args)
    | ⟨.index name position, _h⟩ => do
      let items ← ofExcept (itemsOfName scope.bindings name)
      let value ← evaluate scope position
      return itemAt items value.toNumber
    | ⟨.not operand, _h⟩ => do
      return .bool !(← evaluate scope operand).truthy
    | ⟨.negative operand, _h⟩ => do
      return .number (-(← evaluate scope operand).toNumber)
    | ⟨.single t, _⟩ => ofExcept (valueOfToken scope.bindings t)
    | ⟨.unreadable slice, _⟩ => fail (.invalidExpression (.slice slice))
termination_by ts.length
decreasing_by
  all_goals simp only [← _h, Shape.tokens, List.length_cons, List.length_append, List.length_nil]
  -- the two operands, the interior of a group, an argument, an index, the operand of a sign
  · omega
  · omega
  · omega
  · have := length_le_of_mem_arguments _mem
    omega
  · omega
  · omega
  · omega

end RuleConditions
