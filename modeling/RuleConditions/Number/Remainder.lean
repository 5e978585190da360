import RuleConditions.Number.Basic

/-!
# The remainder of a division of doubles

`remainder x y` is `x - n · y`, where `n` is the quotient `x / y` without its fraction.  Over a
common power of two that is a remainder of whole numbers, so the result is exact.
-/

namespace RuleConditions.Number

/-- What is left of `x` after taking away `y` as often as it fits; the sign is that of `x`.  NaN if
there is no such number: `x` is infinite, or `y` is zero, or either is NaN. -/
def remainder (x y : Float) : Float :=
  match parts x, parts y with
  | .notANumber, _ | _, .notANumber => nan
  | .infinity _, _ | _, .zero _ => nan
  | .zero _, _ | _, .infinity _ => x
  | .finite sign m e _, .finite _ n f _ =>
    let common := min e f
    ofBinary sign (m <<< (e - common).toNat % n <<< (f - common).toNat) common

end RuleConditions.Number
