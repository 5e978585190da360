import RuleConditions.Evaluate

/-!
# Sessions

A session serves several evaluations one after the other, under the same bindings and the same
limit.  The precedence can be set between two of them, and each evaluation starts at the depth where
the one before it ended.
-/

namespace RuleConditions

structure Session where
  scope : Scope
  /-- The depth between two evaluations. -/
  depth : Nat

namespace Session

/-- A session that has served nothing yet. -/
def start (scope : Scope) : Session := ⟨scope, 0⟩

/-- Sets the precedence of the evaluations to come. -/
def setPrecedence (s : Session) (p : Precedence) : Session :=
  { s with scope := { s.scope with precedence := p } }

/-- Evaluates a slice, and keeps the depth where that ends. -/
def step (s : Session) (ts : List Token) : Run Value × Session :=
  let run := evaluate s.scope ts s.depth
  (run, { s with depth := run.depth })

/-- A slice to evaluate, with the precedence that is set before. -/
structure Request where
  precedence : Precedence
  tokens : List Token

/-- The runs for several requests, one after the other. -/
def serve : (s : Session) → List Request → List (Run Value)
  | _, [] => []
  | s, request :: requests =>
    let served := (s.setPrecedence request.precedence).step request.tokens
    served.1 :: served.2.serve requests

end Session

end RuleConditions
