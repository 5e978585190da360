/-!
# Sets of characters given by ranges of code points
-/

namespace RuleConditions.Text

/-- A set of characters, as the ranges of code points it is made of; both ends belong to a range. -/
abbrev Ranges := List (Nat × Nat)

/-- Whether one of the ranges holds the character. -/
def Ranges.contains (ranges : Ranges) (c : Char) : Bool :=
  ranges.any fun (first, last) => first ≤ c.toNat && c.toNat ≤ last

end RuleConditions.Text
