import RuleConditions.Number.Basic

/-!
# The shortest decimal that reads back

A double stands for every real number that rounds to it, an interval around its own value.
`shortest` picks the decimal `c · 10 ^ g` in that interval with the greatest `g`, which is the one
with the fewest digits, and among several the one nearest to the double's value; a tie goes away
from zero.  All tests are exact ones on whole numbers.

`toText` writes that decimal with a point and never with an exponent.
-/

namespace RuleConditions.Number

/-- The decimal `coefficient · 10 ^ exponent`. -/
structure Decimal where
  coefficient : Nat
  exponent : Int
deriving DecidableEq, Repr

/-! ### The interval of a double -/

/-- The reals that round to a positive double, in quarters of its last binary place: the double is
`4 · m` of them, and its interval reaches from `low` to `high`. -/
structure Interval where
  low : Nat
  value : Nat
  high : Nat
  /-- Whether the two ends belong to the interval. -/
  closed : Bool
  /-- The interval's unit is two to this power. -/
  exponent : Int

/-- The least exponent of a double's coefficient. -/
def leastExponent : Int := -1074

/-- The interval of `m · 2 ^ e`.  It ends half a place away on both sides, but below a power of two
the places are half as wide.  A half rounds to the even coefficient, so the ends belong to it exactly
if `m` is even. -/
def Interval.of (m : Nat) (e : Int) : Interval where
  low := 4 * m - if m = Nat.pow 2 52 ∧ leastExponent < e then 1 else 2
  value := 4 * m
  high := 4 * m + 2
  closed := m % 2 = 0
  exponent := e - 2

/-! ### The coarsest grid with a point in the interval -/

/-- The point of the grid of multiples of `10 ^ g` that is in the interval, and of two such points
the one nearer to the value. -/
def Interval.onGrid? (i : Interval) (g : Int) : Option Decimal :=
  -- `scale / unit` is `2 ^ i.exponent / 10 ^ g`
  let scale := Nat.pow 2 i.exponent.toNat * Nat.pow 10 (-g).toNat
  let unit := Nat.pow 2 (-i.exponent).toNat * Nat.pow 10 g.toNat
  let below := i.value * scale / unit
  let above := below + 1
  let reaches (a b : Nat) : Bool := a < b || (i.closed && a == b)
  let fitsBelow := reaches (i.low * scale) (below * unit)
  let fitsAbove := reaches (above * unit) (i.high * scale)
  let aboveNearer : Bool := unit ≤ 2 * (i.value * scale - below * unit)
  if fitsAbove && (aboveNearer || !fitsBelow) then some ⟨above, g⟩
  else if fitsBelow then some ⟨below, g⟩
  else none

/-- Tries the grids of `10 ^ g`, `10 ^ (g - 1)` and so on, `steps` of them. -/
def Interval.coarsest? (i : Interval) : (steps : Nat) → (g : Int) → Option Decimal
  | 0, _ => none
  | steps + 1, g => i.onGrid? g <|> i.coarsest? steps (g - 1)

/-- A grid that is too coarse for `m · 2 ^ e`, by at most two steps: `30103 / 100000` is just above
the logarithm of two. -/
def coarseGrid (m : Nat) (e : Int) : Int :=
  (e + m.log2 + 1) * 30103 / 100000 + 1

/-- The shortest decimal that reads back as `m · 2 ^ e`.  Seventeen digits always do. -/
def shortest (m : Nat) (e : Int) : Decimal :=
  ((Interval.of m e).coarsest? 20 (coarseGrid m e)).getD ⟨0, 0⟩

/-! ### Text -/

/-- The decimal with a point where its exponent asks for one, and no exponent. -/
def Decimal.positional (d : Decimal) : String :=
  let digits := Nat.toDigits 10 d.coefficient
  let places := (-d.exponent).toNat
  let padded := List.replicate (places + 1 - digits.length) '0' ++ digits
  let whole := padded.take (padded.length - places)
  let fraction := padded.drop (padded.length - places)
  let zeros := List.replicate d.exponent.toNat '0'
  String.ofList (whole ++ zeros ++ if fraction.isEmpty then [] else '.' :: fraction)

/-- A double as text: the shortest decimal that reads back, or a name.  NaN has no sign. -/
def toText (x : Float) : String :=
  let signed : Float.Model.UnpackedFloat.Sign → String → String
    | .negative, text => "-" ++ text
    | .positive, text => text
  match parts x with
  | .notANumber => "NaN"
  | .infinity sign => signed sign "inf"
  | .zero sign => signed sign "0"
  | .finite sign m e _ => signed sign (shortest m e).positional

end RuleConditions.Number
