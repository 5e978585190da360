import RuleConditions.Error

/-!
# Runs

An evaluation starts with a number of slices under evaluation, the depth, and ends with an outcome,
a depth and a trace of what happened.  `nested` evaluates inside a slice: it counts one level more
on the way in, refuses to pass the limit, and counts one less on the way out, whether the evaluation
inside fails or not.
-/

namespace RuleConditions

/-- A slice of `length` tokens is split on the operator at `position`. -/
structure Split where
  op : Operator
  position : Nat
  length : Nat
deriving DecidableEq, Repr

/-- Something that happens during an evaluation. -/
inductive Event where
  /-- The evaluation of a slice starts; the depth counts it already. -/
  | entered (depth : Nat) (slice : List Token)
  | split (s : Split)
  /-- The evaluation of a slice ends; the depth still counts it. -/
  | exited (depth : Nat)
deriving DecidableEq, Repr

def Event.split? : Event → Option Split
  | .split s => some s
  | .entered .. | .exited _ => none

/-- What an evaluation comes to. -/
structure Run (α : Type) where
  outcome : Except RuleError α
  /-- The depth afterwards. -/
  depth : Nat
  /-- Everything that happened, in order. -/
  trace : List Event

/-- The splits of a run, in order. -/
def Run.splits {α : Type} (run : Run α) : List Split := run.trace.filterMap Event.split?

/-- An evaluation that starts at a given depth. -/
abbrev Evaluation (α : Type) := Nat → Run α

namespace Evaluation

variable {α β : Type}

/-- Nothing happens and the result is `a`. -/
def done (a : α) : Evaluation α := fun depth => ⟨.ok a, depth, []⟩

def fail (e : RuleError) : Evaluation α := fun depth => ⟨.error e, depth, []⟩

def ofExcept (outcome : Except RuleError α) : Evaluation α := fun depth => ⟨outcome, depth, []⟩

/-- First one evaluation and then, if it succeeds, another that may depend on its result. -/
def andThen (first : Evaluation α) (second : α → Evaluation β) : Evaluation β := fun depth =>
  let run := first depth
  match run.outcome with
  | .error e => ⟨.error e, run.depth, run.trace⟩
  | .ok a =>
    let next := second a run.depth
    ⟨next.outcome, next.depth, run.trace ++ next.trace⟩

instance : Monad Evaluation where
  pure := done
  bind := andThen

/-- Adds an event to the trace. -/
def note (event : Event) : Evaluation Unit := fun depth => ⟨.ok (), depth, [event]⟩

/-- Evaluates inside a slice, one level deeper, if that does not pass the limit. -/
def nested (limit : Nat) (slice : List Token) (inside : Evaluation α) : Evaluation α := fun depth =>
  if limit < depth + 1 then ⟨.error (.tooDeep limit), depth, []⟩
  else
    let run := inside (depth + 1)
    ⟨run.outcome, run.depth - 1, .entered (depth + 1) slice :: run.trace ++ [.exited run.depth]⟩

/-- Evaluates for each item in order, up to the first failure. -/
def each : (items : List α) → ((item : α) → item ∈ items → Evaluation β) → Evaluation (List β)
  | [], _ => done []
  | item :: rest, evaluate =>
    andThen (evaluate item (.head _)) fun b =>
      andThen (each rest fun other h => evaluate other (.tail _ h)) fun bs => done (b :: bs)

end Evaluation

end RuleConditions
