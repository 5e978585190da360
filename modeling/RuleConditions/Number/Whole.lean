import RuleConditions.Number.Basic

/-!
# Whole numbers among the doubles

Cutting `m · 2 ^ e` at the binary point is exact arithmetic on whole numbers, so the three directed
roundings (`floor`, `ceil`, `trunc`) and the conversion to an index (`toIndex`) are decided here
without any arithmetic on doubles.  The result goes back through `ofBinary`, which is exact on every
value these functions hand it.
-/

namespace RuleConditions.Number

open Float.Model.UnpackedFloat (Sign)

/-! ### Cutting at the binary point -/

/-- The whole part of `m · 2 ^ e`. -/
def wholePart (m : Nat) (e : Int) : Nat :=
  if 0 ≤ e then m <<< e.toNat else m >>> (-e).toNat

/-- Whether `m · 2 ^ e` is not a whole number. -/
def hasFraction (m : Nat) (e : Int) : Bool :=
  e < 0 && m % Nat.pow 2 (-e).toNat != 0

/-- Cuts a double to a whole number.  Where something is cut off, `away` tells from the sign whether
the result moves one further from zero.  Zeros keep their sign, and what is no finite number stays
as it is. -/
def toWhole (away : Sign → Bool) (x : Float) : Float :=
  match parts x with
  | .finite sign m e _ =>
    let step := if hasFraction m e && away sign then 1 else 0
    ofBinary sign (wholePart m e + step) 0
  | .zero _ | .infinity _ | .notANumber => x

/-- The greatest whole number that is not above `x`. -/
def floor (x : Float) : Float :=
  toWhole (fun | .negative => true | .positive => false) x

/-- The least whole number that is not below `x`. -/
def ceil (x : Float) : Float :=
  toWhole (fun | .negative => false | .positive => true) x

/-- `x` without its fraction. -/
def trunc (x : Float) : Float :=
  toWhole (fun _ => false) x

/-- The whole number nearest to `x`; halves go up, so `-2.5` becomes `-2`. -/
def round (x : Float) : Float :=
  let below := floor x
  if 0.5 ≤ x - below then below + 1 else below

/-! ### Indices -/

/-- One more than the greatest index. -/
def indexBound : Nat := Nat.pow 2 64

/-- A double as an index: whole, not negative and at most `indexBound`.  `indexBound` itself, which
is the double nearest to the greatest index, counts as that index. -/
def toIndex (x : Float) : Option Nat :=
  match parts x with
  | .zero _ => some 0
  | .finite .positive m e _ =>
    if hasFraction m e then none
    else if wholePart m e ≤ indexBound then some (min (wholePart m e) (indexBound - 1))
    else none
  | .finite .negative .. | .infinity _ | .notANumber => none

end RuleConditions.Number
