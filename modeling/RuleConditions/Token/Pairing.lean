import RuleConditions.Token.Basic

/-!
# Pairing of brackets

`bracketsPair ts` decides whether every bracket of a token list has a partner of its own kind and the
pairs nest.  The test keeps the kinds of the brackets that are still open, the innermost first.
-/

namespace RuleConditions

/-- Whether the tokens close the brackets in `awaiting`, the innermost first, and open and close
further ones properly. -/
def closesAll : (awaiting : List Bracket) → List Token → Bool
  | awaiting, [] => awaiting.isEmpty
  | awaiting, .symbol (.opening b) :: ts => closesAll (b :: awaiting) ts
  | b :: awaiting, .symbol (.closing c) :: ts => b == c && closesAll awaiting ts
  | [], .symbol (.closing _) :: _ => false
  | awaiting, _ :: ts => closesAll awaiting ts

/-- Whether the brackets of a token list pair up and nest, each with one of its own kind. -/
def bracketsPair (ts : List Token) : Bool := closesAll [] ts

end RuleConditions
