import RuleConditions.Bindings
import RuleConditions.Catalogue
import RuleConditions.Error
import RuleConditions.Text.Digit

/-!
# What a single token stands for

A numeral stands for its number and a string for its contents.  Everything else is looked up as a
name: first among the keywords, then among the constants and last among the bindings, so a binding
cannot change the meaning of a keyword or a constant.
-/

namespace RuleConditions

open Text (isDecimalDigit)

/-- Whether a word is a numeral: decimal digits, at least one, and at most one dot.  The digits of
every script count, but only those of ASCII can be read. -/
def isNumeral (word : List Char) : Bool :=
  word.all (fun c => isDecimalDigit c || c == '.') && word.any isDecimalDigit && word.count '.' ≤ 1

/-- The values that have a name of their own. -/
def keyword? : String → Option Value
  | "true" => some (.bool true)
  | "false" => some (.bool false)
  | "null" => some .null
  | "undefined" => some .undefined
  | _ => none

/-- The meaning of a name that the bindings cannot change. -/
def fixedName? (name : String) : Option Value :=
  (keyword? name).or ((constant? name).map .number)

/-- The value of a name. -/
def valueOfName (bindings : Bindings) (name : String) : Except RuleError Value :=
  match (fixedName? name).or (bindings.get? name) with
  | some value => .ok value
  | none => .error (.unknownVariable name)

/-- The value of a slice of one token. -/
def valueOfToken (bindings : Bindings) : Token → Except RuleError Value
  | .number word =>
    if isNumeral word.toList then
      match Number.read? word.toList with
      | some x => .ok (.number x)
      | none => .error (.invalidExpression (.slice [.number word]))
    else valueOfName bindings word
  | .ident name => valueOfName bindings name
  | .str contents => .ok (.string contents)
  | .symbol s => .error (.invalidExpression (.slice [.symbol s]))

/-- The items of the array under a name. -/
def itemsOfName (bindings : Bindings) (name : String) : Except RuleError (List Value) :=
  match bindings.get? name with
  | none => .error (.unknownVariable name)
  | some value =>
    match value.items? with
    | some items => .ok items
    | none => .error (.notAnArray name value.type)

/-- The item at a position.  Where there is none, the value is undefined. -/
def itemAt (items : List Value) (position : Float) : Value :=
  ((Number.toIndex position).bind (items[·]?)).getD .undefined

end RuleConditions
