/-!
# Doubles and the numbers they stand for

A finite double is `± m · 2 ^ e` for a whole `m`.  `parts` takes a double apart, `ofBinary` puts one
together and `rational?` gives the rational number it stands for.  What this library computes beyond the
four operations of arithmetic is exact arithmetic on these parts.
-/

namespace RuleConditions.Number

open Float.Model (UnpackedFloat)
open Float.Model.UnpackedFloat (Sign)

/-- Not a number. -/
def nan : Float := 0.0 / 0.0

/-- Greater than every finite number. -/
def infinity : Float := 1.0 / 0.0

/-- The kinds of double, with the sign, whole coefficient and power of two of a finite one. -/
def parts (x : Float) : UnpackedFloat := x.toModel.unpack

/-- The double nearest to `± coefficient · 2 ^ exponent`; a tie goes to the even coefficient. -/
def ofBinary (sign : Sign) (coefficient : Nat) (exponent : Int) : Float :=
  .ofModel (.pack (.round .binary64 sign coefficient exponent))

/-- The double nearest to a whole number; a tie goes to the even coefficient. -/
def ofInt (n : Int) : Float := .ofModel (.ofInt n)

/-- The number a finite double stands for.  An infinity or NaN stands for none. -/
def rational? (x : Float) : Option Rat :=
  match parts x with
  | .zero _ => some 0
  | .finite sign m e _ => some (sign.apply m * (2 : Rat) ^ e)
  | .infinity _ | .notANumber => none

end RuleConditions.Number
