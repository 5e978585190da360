/-!
# How many arguments a function takes
-/

namespace RuleConditions

inductive Arity where
  | exactly (n : Nat)
  /-- At least `min`; at most `max` if there is such a bound. -/
  | between (min : Nat) (max : Option Nat)
deriving DecidableEq, Repr

/-- What is wrong with a number of arguments. -/
inductive ArityFault where
  | notExactly (expected got : Nat)
  | fewerThan (min : Nat)
  | moreThan (max : Nat)
deriving DecidableEq, Repr

/-- A function was given a number of arguments it does not take. -/
structure ArityMismatch where
  /-- The name under which the function is defined. -/
  function : String
  fault : ArityFault
deriving DecidableEq, Repr

/-- What is wrong with `count` arguments, if anything is.  Too few is told before too many. -/
def Arity.fault? : Arity → (count : Nat) → Option ArityFault
  | .exactly n, count => if count = n then none else some (.notExactly n count)
  | .between min max, count =>
    if count < min then some (.fewerThan min)
    else
      match max with
      | some max => if max < count then some (.moreThan max) else none
      | none => none

/-- Whether `count` arguments are allowed. -/
def Arity.allows (arity : Arity) (count : Nat) : Bool := (arity.fault? count).isNone

/-- The least number of arguments that may be allowed. -/
def Arity.least : Arity → Nat
  | .exactly n => n
  | .between min _ => min

theorem Arity.least_le_of_allows {arity : Arity} {count : Nat} (h : arity.allows count = true) :
    arity.least ≤ count := by
  cases arity with
  | exactly n =>
    have hcount : count = n := by simpa [allows, fault?] using h
    exact Nat.le_of_eq hcount.symm
  | between min max =>
    refine Nat.not_lt.mp fun hfewer : count < min => ?_
    exact absurd h (by simp [allows, fault?, hfewer])

def ArityFault.text : ArityFault → String
  | .notExactly expected got => s!"expects {expected} argument(s), got {got}."
  | .fewerThan min => s!"expects at least {min} argument(s)."
  | .moreThan max => s!"expects at most {max} argument(s)."

def ArityMismatch.text (m : ArityMismatch) : String :=
  s!"\"{m.function}\" " ++ m.fault.text

end RuleConditions
