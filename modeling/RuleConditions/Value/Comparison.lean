import RuleConditions.Value.Coercion

/-!
# Two equalities and one order

`identical` asks for the same type and the same value, with arrays and objects compared by content.
`equal` also lets numbers, texts and truth values meet as numbers, and takes null and undefined for
one another.  `compare` orders texts by code points and everything else by number; it has no answer
where a number is NaN.
-/

namespace RuleConditions.Value

/-! ### Equality -/

mutual

/-- Same type and same value.  NaN differs from every number, itself included. -/
def identical : Value → Value → Bool
  | .undefined, .undefined => true
  | .null, .null => true
  | .bool a, .bool b => a == b
  | .number a, .number b => a == b
  | .string a, .string b => a == b
  | .array a, .array b => identicalItems a b
  | .object a, .object b => identicalFields a b
  | _, _ => false

/-- Same length, and identical items place by place. -/
def identicalItems : List Value → List Value → Bool
  | [], [] => true
  | a :: as, b :: bs => identical a b && identicalItems as bs
  | _, _ => false

/-- Same names in the same places, with identical values. -/
def identicalFields : List (String × Value) → List (String × Value) → Bool
  | [], [] => true
  | (name, a) :: as, (other, b) :: bs => name == other && identical a b && identicalFields as bs
  | _, _ => false

end

/-- Whether the value is a number, a text or a truth value. -/
def isScalar : Value → Bool
  | .number _ | .string _ | .bool _ => true
  | _ => false

/-- Whether the value is null or undefined. -/
def isNothing : Value → Bool
  | .undefined | .null => true
  | _ => false

/-- Equality across types: two scalars of different types are compared as numbers, null and
undefined equal each other and nothing else, and all other pairs have to be identical. -/
def equal (a b : Value) : Bool :=
  if a.isNothing || b.isNothing then a.isNothing && b.isNothing
  else if a.isScalar && b.isScalar && a.type != b.type then a.toNumber == b.toNumber
  else identical a b

/-! ### Order -/

/-- The order of two numbers; none if one of them is NaN. -/
def compareNumbers (a b : Float) : Option Ordering :=
  if a < b then some .lt
  else if b < a then some .gt
  else if a == b then some .eq
  else none

/-- The order of two texts: by their first different character, and a text before its
continuations. -/
def compareTexts (a b : String) : Ordering :=
  compareOfLessAndEq a b

/-- The order of two values: of two texts as texts, of all others as numbers. -/
def compare (a b : Value) : Option Ordering :=
  match a, b with
  | .string a, .string b => some (compareTexts a b)
  | _, _ => compareNumbers a.toNumber b.toNumber

def less (a b : Value) : Bool := compare a b == some .lt

def greater (a b : Value) : Bool := compare a b == some .gt

def atMost (a b : Value) : Bool := compare a b == some .lt || compare a b == some .eq

def atLeast (a b : Value) : Bool := compare a b == some .gt || compare a b == some .eq

end RuleConditions.Value
