import RuleConditions.Arity
import RuleConditions.Denylist
import RuleConditions.Token.Basic
import RuleConditions.Value.Basic

/-!
# Why a condition cannot be judged

Each constructor of `RuleError` is a cause.  `message` puts it into words and `kind` sorts the causes
into five groups.
-/

namespace RuleConditions

/-- Why a slice of tokens has no value. -/
inductive Malformed where
  /-- There is nothing where an operand should be. -/
  | empty
  /-- These tokens do not form an operand. -/
  | slice (ts : List Token)
  /-- The operator between the operands is not in the directory of its family. -/
  | unsupported (op : Operator)
deriving DecidableEq, Repr

inductive RuleError where
  | tooLong (length max : Nat)
  | denied (reason : DenyReason)
  | invalidCharacter (c : Char) (position : Nat)
  /-- The string that starts at this position has no end. -/
  | unterminatedString (position : Nat)
  | tooComplex (count max : Nat)
  | tooDeep (max : Nat)
  | unknownVariable (name : String)
  | unknownFunction (name : String)
  | notAnArray (name : String) (found : ValueType)
  | arity (mismatch : ArityMismatch)
  | unbalanced
  | invalidExpression (what : Malformed)
deriving DecidableEq, Repr

/-- The groups of causes. -/
inductive ErrorKind where
  | refused | lexical | tooComplex | unknownIdentifier | structural
deriving DecidableEq, Repr

def ErrorKind.text : ErrorKind → String
  | .refused => "rejected_by_guard"
  | .lexical => "lexical"
  | .tooComplex => "too_complex"
  | .unknownIdentifier => "unknown_identifier"
  | .structural => "structural"

def Malformed.text : Malformed → String
  | .empty => "empty expression"
  | .slice ts => Token.textAll ts
  | .unsupported op => "unsupported operator " ++ op.text

namespace RuleError

def kind : RuleError → ErrorKind
  | .tooLong .. | .denied _ => .refused
  | .invalidCharacter .. | .unterminatedString _ => .lexical
  | .tooComplex .. | .tooDeep _ => .tooComplex
  | .unknownVariable _ | .unknownFunction _ | .notAnArray .. => .unknownIdentifier
  | .arity _ | .unbalanced | .invalidExpression _ => .structural

/-- The cause in words. -/
def message : RuleError → String
  | .tooLong length max => s!"expression too long: {length} characters (max {max})"
  | .denied reason => "expression rejected: " ++ reason.text
  | .invalidCharacter c position =>
    "invalid character " ++ Text.quote '\'' [c] ++ s!" at position {position}"
  | .unterminatedString position => s!"unterminated string literal starting at position {position}"
  | .tooComplex count max => s!"expression too complex: {count} tokens (max {max})"
  | .tooDeep max => s!"expression nested too deeply (max depth {max})"
  | .unknownVariable name => "unknown variable: " ++ name
  | .unknownFunction name => "unknown function: " ++ name
  | .notAnArray name found => "not an array: " ++ name ++ " is " ++ found.text
  | .arity mismatch => mismatch.text
  | .unbalanced => "unbalanced brackets"
  | .invalidExpression what => "invalid expression: " ++ what.text

end RuleError

end RuleConditions
