import RuleConditions.Evaluate
import RuleConditions.Options
import RuleConditions.Text.Excerpt
import RuleConditions.Token.Lexeme
import RuleConditions.Token.Pairing
import RuleConditions.Value.Text

/-!
# Judging conditions

The way of a condition from its text to a verdict: the text is screened, read as tokens, checked
again (`tokens`) and evaluated (`run`).  `judge` turns the value into a truth value.  Whatever fails
on the way makes the condition false, and the report says what it was.
-/

namespace RuleConditions

/-- Refuses tokens whose brackets do not pair. -/
def checkPairing (ts : List Token) : Except RuleError Unit :=
  if bracketsPair ts then .ok () else .error .unbalanced

namespace Options

/-! ### Before evaluation -/

/-- Refuses a text that is too long or holds a denied construct.  The length is tested first. -/
def screen (o : Options) (text : String) : Except RuleError Unit :=
  if o.maxLength < text.length then .error (.tooLong text.length o.maxLength)
  else
    match denied? text.toList with
    | some reason => .error (.denied reason)
    | none => .ok ()

/-- Refuses too many tokens, and brackets that do not pair if the precedence minds brackets. -/
def checkTokens (o : Options) (ts : List Token) : Except RuleError Unit :=
  if o.maxTokens < ts.length then .error (.tooComplex ts.length o.maxTokens)
  else if o.precedence.mindsBrackets then checkPairing ts
  else .ok ()

/-- The tokens of a condition that passes every check. -/
def tokens (o : Options) (text : String) : Except RuleError (List Token) := do
  o.screen text
  let ts ← tokenize text
  o.checkTokens ts
  return ts

/-- Checks all of a condition that does not depend on bindings. -/
def check (o : Options) (text : String) : Except RuleError Unit :=
  (o.tokens text).map fun _ => ()

/-! ### Evaluation -/

/-- The scope in which conditions are evaluated under these options. -/
def scope (o : Options) (bindings : Bindings) : Scope := ⟨bindings, o.precedence, o.maxDepth⟩

/-- Evaluates a condition.  Nothing is under evaluation at the start. -/
def run (o : Options) (bindings : Bindings) (text : String) : Run Value :=
  match o.tokens text with
  | .error e => ⟨.error e, 0, []⟩
  | .ok ts => evaluate (o.scope bindings) ts 0

/-- The value of a condition. -/
def valueOf (o : Options) (bindings : Bindings) (text : String) : Except RuleError Value :=
  (o.run bindings text).outcome

end Options

/-! ### Verdicts -/

/-- What is told about a condition that was judged. -/
inductive Report where
  | evaluated (result : Bool) (value : Value)
  /-- The condition could not be judged; the excerpt is the start of its text. -/
  | failed (cause : RuleError) (excerpt : String)

structure Verdict where
  holds : Bool
  report : Report

/-- Judges a condition. -/
def Options.judge (o : Options) (bindings : Bindings) (text : String) : Verdict :=
  match o.valueOf bindings text with
  | .ok value => ⟨value.truthy, .evaluated value.truthy value⟩
  | .error cause => ⟨false, .failed cause (Text.excerpt o.excerptLength text)⟩

/-- Whether a condition holds, judged under the default limits. -/
def holds (bindings : Bindings) (text : String) : Bool :=
  (({} : Options).judge bindings text).holds

end RuleConditions
