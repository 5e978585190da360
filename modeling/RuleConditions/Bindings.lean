import RuleConditions.Directory
import RuleConditions.Value.Basic

/-!
# Bindings

The names that a condition may use, each with a value.  A name bound to `undefined` is bound; a name
that is not there is unknown.
-/

namespace RuleConditions

abbrev Bindings := Directory Value

/-- The bindings that an object describes; every other document describes none. -/
def Bindings.ofJson : Json → Bindings
  | .object members => .ofList (Value.ofJsonMembers members)
  | _ => .empty

end RuleConditions
