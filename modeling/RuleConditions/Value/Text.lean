import RuleConditions.Number.Shortest
import RuleConditions.Text.Quoted
import RuleConditions.Value.Basic

/-!
# Values as text
-/

namespace RuleConditions.Value

mutual

/-- A value as text.  Texts stand between double quote marks, the items of an array between
brackets, and the fields of an object are not shown. -/
def text : Value → String
  | .undefined => "undefined"
  | .null => "null"
  | .bool b => if b then "true" else "false"
  | .number x => Number.toText x
  | .string s => RuleConditions.Text.quote '"' s.toList
  | .array items => "[" ++ ", ".intercalate (itemTexts items) ++ "]"
  | .object _ => "[object]"

/-- The texts of several values. -/
def itemTexts : List Value → List String
  | [] => []
  | item :: rest => text item :: itemTexts rest

end

end RuleConditions.Value
