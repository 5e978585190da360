import RuleConditions.Number.Basic

/-!
# Reading a number

`read?` accepts a decimal numeral (digits with at most one point and at least one digit, then
possibly an exponent) or a name of infinity or NaN, with or without a sign, and gives the nearest
double.  Digits are the ten of ASCII; there are no blanks, separators or other bases.
-/

namespace RuleConditions.Number

/-! ### Digits -/

/-- A run of digits at the front of a text, and the rest. -/
def spanDigits (cs : List Char) : List Char × List Char :=
  (cs.takeWhile Char.isDigit, cs.dropWhile Char.isDigit)

/-- The number that digits spell in base ten. -/
def ofDigits (digits : List Char) : Nat :=
  digits.foldl (fun n c => 10 * n + (c.toNat - '0'.toNat)) 0

/-! ### Numerals -/

/-- A sign, if there is one, and the rest. -/
def splitSign : List Char → Bool × List Char
  | '-' :: cs => (true, cs)
  | '+' :: cs => (false, cs)
  | cs => (false, cs)

/-- What follows an `e`: a sign if there is one, then digits and nothing else. -/
def readExponent? (cs : List Char) : Option Int :=
  let (negative, digits) := splitSign cs
  if digits.isEmpty || !digits.all Char.isDigit then none
  else some (if negative then -(ofDigits digits : Int) else ofDigits digits)

/-- An unsigned numeral as a whole number and the power of ten it is multiplied by. -/
def readDecimal? (cs : List Char) : Option (Nat × Int) :=
  let (whole, rest) := spanDigits cs
  let (fraction, rest) :=
    match rest with
    | '.' :: rest => spanDigits rest
    | _ => ([], rest)
  if whole.isEmpty && fraction.isEmpty then none
  else
    let coefficient := ofDigits (whole ++ fraction)
    let places : Int := fraction.length
    match rest with
    | [] => some (coefficient, -places)
    | 'e' :: rest | 'E' :: rest => (readExponent? rest).map fun e => (coefficient, e - places)
    | _ => none

/-- The double nearest to `coefficient · 10 ^ exponent`; a tie goes to the even coefficient. -/
def ofDecimal (coefficient : Nat) (exponent : Int) : Float :=
  .ofModel (.ofScientific coefficient exponent)

/-! ### Names -/

/-- What a word that is no numeral can stand for; the case of its letters does not count. -/
def named? (cs : List Char) : Option Float :=
  let word := cs.map Char.toLower
  if word = "inf".toList ∨ word = "infinity".toList then some infinity
  else if word = "nan".toList then some nan
  else none

/-- The double that a text spells, if it spells one. -/
def read? (cs : List Char) : Option Float :=
  let (negative, unsigned) := splitSign cs
  let magnitude := (readDecimal? unsigned).map (fun (c, e) => ofDecimal c e) <|> named? unsigned
  magnitude.map fun x => if negative then -x else x

end RuleConditions.Number
