import RuleConditions.Number.Basic

/-!
# Cube roots

`cubeRoot x` is the double nearest to the real cube root of `x`.  The root of a whole number is
found bit by bit (`wholeCubeRoot`); with two bits more than a double has, and one more that tells
whether anything was left over, rounding that root once is rounding the real one.
-/

namespace RuleConditions.Number

/-- Adds to `found` those of the powers `2 ^ (bits - 1)`, …, `1`, the greatest first, that keep the
cube at most `n`. -/
def cubeRootBits (n : Nat) : (bits found : Nat) → Nat
  | 0, found => found
  | bits + 1, found =>
    cubeRootBits n bits
      (if Nat.pow (found + Nat.pow 2 bits) 3 ≤ n then found + Nat.pow 2 bits else found)

/-- The greatest whole number whose cube is at most `n`. -/
def wholeCubeRoot (n : Nat) : Nat := cubeRootBits n (n.log2 / 3 + 1) 0

/-- The double nearest to the cube root of `x`.  Zeros keep their sign, and what is no finite number
stays as it is. -/
def cubeRoot (x : Float) : Float :=
  match parts x with
  | .finite sign m e _ =>
    -- a power of two that leaves a multiple of three, and a root of at least 55 bits
    let shift := 162 + (e % 3).toNat
    let n := m <<< shift
    let root := wholeCubeRoot n
    let leftOver := if Nat.pow root 3 = n then 0 else 1
    ofBinary sign (2 * root + leftOver) ((e - shift) / 3 - 1)
  | .zero _ | .infinity _ | .notANumber => x

end RuleConditions.Number
