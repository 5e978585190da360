import RuleConditions.Number.Numeral
import RuleConditions.Text.Blank
import RuleConditions.Value.Basic

/-!
# Values as numbers and as truth values

Every value counts as a number, if only as NaN, and every value counts as true or false.
-/

namespace RuleConditions.Value

open Number (nan)

/-- A text as a number: without the blanks around it, nothing is zero and what spells no number is
NaN. -/
def numberOfText (text : String) : Float :=
  match Text.trim text.toList with
  | [] => 0
  | cs => (Number.read? cs).getD nan

/-- A value as a number. -/
def toNumber : Value → Float
  | .undefined => nan
  | .null => 0
  | .bool b => if b then 1 else 0
  | .number x => x
  | .string s => numberOfText s
  | .array _ | .object _ => nan

/-- Whether a value counts as true. -/
def truthy : Value → Bool
  | .undefined | .null => false
  | .bool b => b
  | .number x => x != 0 && !x.isNaN
  | .string s => !s.isEmpty
  | .array _ | .object _ => true

end RuleConditions.Value
