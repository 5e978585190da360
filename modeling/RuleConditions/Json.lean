import RuleConditions.Number.Numeral

/-!
# JSON documents

A document as it was written, as far as that can matter: a number keeps its digits and whether it
was written with a point or an exponent, since a count may not be written so, and an object keeps
its members in order.
-/

namespace RuleConditions

/-- A number: a sign, then `coefficient · 10 ^ exponent`. -/
structure JsonNumber where
  negative : Bool
  coefficient : Nat
  exponent : Int
  /-- Written with digits only. -/
  plain : Bool
deriving DecidableEq, Repr

inductive Json where
  | null
  | bool (b : Bool)
  | number (n : JsonNumber)
  | string (s : String)
  | array (items : List Json)
  | object (members : List (String × Json))
deriving Repr, Inhabited

/-- The double nearest to the number; minus zero keeps its sign. -/
def JsonNumber.toFloat (n : JsonNumber) : Float :=
  let magnitude := Number.ofDecimal n.coefficient n.exponent
  if n.negative then -magnitude else magnitude

/-- The number as a count: digits only, no sign, below `2 ^ 64`. -/
def JsonNumber.toCount? (n : JsonNumber) : Option Nat :=
  if n.plain && !n.negative && n.coefficient < Nat.pow 2 64 then some n.coefficient else none

/-- The last member of that name. -/
def Json.member? (members : List (String × Json)) (name : String) : Option Json :=
  members.reverse.lookup name

end RuleConditions
