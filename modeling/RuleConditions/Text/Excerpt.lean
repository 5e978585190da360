/-!
# Excerpts
-/

namespace RuleConditions.Text

/-- A text of at most `limit` characters in full; of a longer one its first `limit` characters and
three dots. -/
def excerpt (limit : Nat) (text : String) : String :=
  if limit < text.length then String.ofList (text.toList.take limit) ++ "..." else text

end RuleConditions.Text
