import RuleConditions.Json

/-!
# Values

What names are bound to and what a condition calculates with.  Numbers are doubles; NaN is a number.
-/

namespace RuleConditions

/-- The types of values. -/
inductive ValueType where
  | undefined | null | boolean | number | string | array | object
deriving DecidableEq, Repr

def ValueType.text : ValueType → String
  | .undefined => "undefined"
  | .null => "null"
  | .boolean => "boolean"
  | .number => "number"
  | .string => "string"
  | .array => "array"
  | .object => "object"

inductive Value where
  /-- What a name holds that has no value, and what is found beyond the end of an array. -/
  | undefined
  | null
  | bool (b : Bool)
  | number (x : Float)
  | string (s : String)
  | array (items : List Value)
  /-- Fields in increasing order of their names, as `Value.ofFields` arranges them. -/
  | object (fields : List (String × Value))

namespace Value

instance : Inhabited Value := ⟨.undefined⟩

def type : Value → ValueType
  | .undefined => .undefined
  | .null => .null
  | .bool _ => .boolean
  | .number _ => .number
  | .string _ => .string
  | .array _ => .array
  | .object _ => .object

/-- The number that a value is; there is no conversion. -/
def number? : Value → Option Float
  | .number x => some x
  | _ => none

/-- The items of an array. -/
def items? : Value → Option (List Value)
  | .array items => some items
  | _ => none

/-! ### Objects -/

/-- Puts a field in its place among fields in increasing order of name; one of the same name is
replaced. -/
def insertField (name : String) (value : Value) : List (String × Value) → List (String × Value)
  | [] => [(name, value)]
  | (other, present) :: rest =>
    if name < other then (name, value) :: (other, present) :: rest
    else if name = other then (name, value) :: rest
    else (other, present) :: insertField name value rest

/-- The object with these fields; of several with one name the last counts. -/
def ofFields (fields : List (String × Value)) : Value :=
  .object (fields.foldl (fun done field => insertField field.1 field.2 done) [])

/-! ### Documents -/

mutual

/-- The value that a document describes. -/
def ofJson : Json → Value
  | .null => .null
  | .bool b => .bool b
  | .number n => .number n.toFloat
  | .string s => .string s
  | .array items => .array (ofJsonItems items)
  | .object members => ofFields (ofJsonMembers members)

@[inherit_doc ofJson]
def ofJsonItems : List Json → List Value
  | [] => []
  | item :: rest => ofJson item :: ofJsonItems rest

@[inherit_doc ofJson]
def ofJsonMembers : List (String × Json) → List (String × Value)
  | [] => []
  | (name, item) :: rest => (name, ofJson item) :: ofJsonMembers rest

end

end Value

end RuleConditions
