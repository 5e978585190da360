import RuleConditions.Token.Basic

/-!
# Precedence

A slice with several operators is split on one of them, the one that is applied last.  `levels` lists
the groups of operators that are looked for, one after the other, and says for each group which of
several operators is taken.

* Conventional: `||` before `&&` before the comparisons before sums before products, always the last
  one, so that every operator groups to the left.  Operators inside brackets do not count.
* Legacy: `&&` and `||` are one group, and of sums and of products the first one is taken, so that
  these group to the right.  Brackets do not matter.
-/

namespace RuleConditions

inductive Precedence where
  | conventional | legacy
deriving DecidableEq, Repr

namespace Operator

def isLogical : Operator → Bool
  | .logical _ => true
  | _ => false

def isComparison : Operator → Bool
  | .comparison _ => true
  | _ => false

/-- `+` and `-`, the operators that are also written in front of a single operand. -/
def isSum : Operator → Bool
  | .arithmetic .add | .arithmetic .subtract => true
  | _ => false

def isProduct : Operator → Bool
  | .arithmetic .multiply | .arithmetic .divide | .arithmetic .remainder => true
  | _ => false

end Operator

/-- Which of several operators of one group a slice is split on. -/
inductive Side where
  | first | last
deriving DecidableEq, Repr

/-- Operators among which the position decides. -/
structure Level where
  holds : Operator → Bool
  side : Side

namespace Precedence

/-- Whether operators inside brackets are passed over, and brackets have to be partners. -/
def mindsBrackets : Precedence → Bool
  | .conventional => true
  | .legacy => false

def levels : Precedence → List Level
  | .conventional => [
      ⟨(· == .logical .or), .last⟩, ⟨(· == .logical .and), .last⟩, ⟨Operator.isComparison, .last⟩,
      ⟨Operator.isSum, .last⟩, ⟨Operator.isProduct, .last⟩]
  | .legacy => [
      ⟨Operator.isLogical, .last⟩, ⟨Operator.isComparison, .last⟩, ⟨Operator.isSum, .first⟩,
      ⟨Operator.isProduct, .first⟩]

end Precedence

end RuleConditions
