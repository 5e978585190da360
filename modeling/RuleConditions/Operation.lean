import RuleConditions.Directory
import RuleConditions.Number.Remainder
import RuleConditions.Token.Basic
import RuleConditions.Value.Comparison

/-!
# What the operators do

A logical operator combines the truth of its operands, a comparison looks at the operands as they
are, and an arithmetic operator turns both into numbers.  No operator fails: what has no number is
NaN, and a quotient or remainder by zero has none.

Each family has a directory, in which its operators are looked up by their texts.  Every operator is
found there (`Operator.lookUp?_eq`).
-/

namespace RuleConditions

open Number (nan)

def LogicalOp.apply : LogicalOp → Bool → Bool → Bool
  | .and, a, b => a && b
  | .or, a, b => a || b

def ComparisonOp.apply : ComparisonOp → Value → Value → Bool
  | .equal, a, b => a.equal b
  | .unequal, a, b => !a.equal b
  | .identical, a, b => a.identical b
  | .distinct, a, b => !a.identical b
  | .less, a, b => a.less b
  | .greater, a, b => a.greater b
  | .atMost, a, b => a.atMost b
  | .atLeast, a, b => a.atLeast b

/-- The quotient and the remainder by a zero of either sign are NaN, so that no comparison with them
holds but `!=` and `!==`. -/
def ArithmeticOp.apply : ArithmeticOp → Float → Float → Float
  | .add, a, b => a + b
  | .subtract, a, b => a - b
  | .multiply, a, b => a * b
  | .divide, a, b => if b == 0 then nan else a / b
  | .remainder, a, b => if b == 0 then nan else Number.remainder a b

/-- The value of an operator for two operands. -/
def Operator.apply : Operator → Value → Value → Value
  | .logical op, a, b => .bool (op.apply a.truthy b.truthy)
  | .comparison op, a, b => .bool (op.apply a b)
  | .arithmetic op, a, b => .number (op.apply a.toNumber b.toNumber)

/-! ### Directories -/

def logicalDirectory : Directory LogicalOp := .ofList [("&&", .and), ("||", .or)]

def comparisonDirectory : Directory ComparisonOp := .ofList [
  ("==", .equal), ("!=", .unequal), ("===", .identical), ("!==", .distinct),
  ("<", .less), (">", .greater), ("<=", .atMost), (">=", .atLeast)]

def arithmeticDirectory : Directory ArithmeticOp := .ofList [
  ("+", .add), ("-", .subtract), ("*", .multiply), ("/", .divide), ("%", .remainder)]

/-- The operator that a family has under a text. -/
def LogicalOp.ofText? (text : String) : Option LogicalOp := logicalDirectory.get? text

@[inherit_doc LogicalOp.ofText?]
def ComparisonOp.ofText? (text : String) : Option ComparisonOp := comparisonDirectory.get? text

@[inherit_doc LogicalOp.ofText?]
def ArithmeticOp.ofText? (text : String) : Option ArithmeticOp := arithmeticDirectory.get? text

/-- The operator that the same family has under the text of this one. -/
def Operator.lookUp? : Operator → Option Operator
  | .logical op => (LogicalOp.ofText? op.text).map .logical
  | .comparison op => (ComparisonOp.ofText? op.text).map .comparison
  | .arithmetic op => (ArithmeticOp.ofText? op.text).map .arithmetic

/-- Every operator is found by its text. -/
theorem Operator.lookUp?_eq (op : Operator) : op.lookUp? = some op := by
  rcases op with (_ | _) | (_ | _ | _ | _ | _ | _ | _ | _) | (_ | _ | _ | _ | _) <;> decide

end RuleConditions
