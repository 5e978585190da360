import RuleConditions.Arity
import RuleConditions.Directory
import RuleConditions.Number.CubeRoot
import RuleConditions.Number.Whole

/-!
# Functions and constants

The functions that a condition may call and the numbers it may name.  There are no others: a name
outside `functions` cannot be called.

How many arguments a function may be given stands beside its body, and the body looks up its first
arguments by position.  The two go together for every function there is: where a number of arguments
is allowed, the body finds all that it looks up (`Function.positions_le_of_allows`).
-/

namespace RuleConditions

open Number (nan infinity)

/-! ### Functions -/

/-- What a function computes. -/
inductive Body where
  /-- From the first argument. -/
  | unary (f : Float → Float)
  /-- From the first two arguments. -/
  | binary (f : Float → Float → Float)
  /-- From all arguments, however many. -/
  | series (f : List Float → Float)

/-- How many arguments a body looks up by position, the first ones. -/
def Body.positions : Body → Nat
  | .unary _ => 1
  | .binary _ => 2
  | .series _ => 0

/-- The result for these arguments, if there are those that the body looks up. -/
def Body.run? : Body → List Float → Option Float
  | .unary f, x :: _ => some (f x)
  | .binary f, x :: y :: _ => some (f x y)
  | .series f, xs => some (f xs)
  | _, _ => none

/-- A body has a result exactly where there are as many arguments as it looks up. -/
theorem Body.isSome_run? (body : Body) (args : List Float) :
    (body.run? args).isSome = decide (body.positions ≤ args.length) := by
  cases body <;> rcases args with _ | ⟨x, _ | ⟨y, ys⟩⟩ <;> simp [Body.run?, Body.positions]

structure Function where
  name : String
  /-- Further names for the same function. -/
  aliases : List String
  /-- The numbers of arguments that a call may have. -/
  arity : Arity
  body : Body

namespace Function

/-- All names of a function, its own first. -/
def names (f : Function) : List String := f.name :: f.aliases

/-- The function's result for these arguments, or what is wrong with their number.  The body of every
function there is has a result for an allowed number, so that none is made up here. -/
def call (f : Function) (args : List Float) : Except ArityMismatch Float :=
  match f.arity.fault? args.length with
  | some fault => .error ⟨f.name, fault⟩
  | none => .ok ((f.body.run? args).getD nan)

end Function

/-! ### The bodies -/

/-- One with the sign of `x`; zeros and NaN stay as they are. -/
def sign (x : Float) : Float :=
  if x.isNaN || x == 0 then x else if x < 0 then -1 else 1

/-- Picks from `start` and the numbers of a list, two at a time.  One NaN makes the result NaN. -/
def extreme (pick : Float → Float → Float) (start : Float) (xs : List Float) : Float :=
  (xs.foldlM (fun found (x : Float) => if x.isNaN then none else some (pick found x)) start).getD nan

/-- The least of several numbers. -/
def least (xs : List Float) : Float :=
  extreme (fun a b => if a < b then a else b) infinity xs

/-- The greatest of several numbers. -/
def greatest (xs : List Float) : Float :=
  extreme (fun a b => if b < a then a else b) (-infinity) xs

/-- Every function there is. -/
def functions : List Function := [
  ⟨"abs", [], .exactly 1, .unary Float.abs⟩,
  ⟨"ceil", [], .exactly 1, .unary Number.ceil⟩,
  ⟨"floor", [], .exactly 1, .unary Number.floor⟩,
  ⟨"round", [], .exactly 1, .unary Number.round⟩,
  ⟨"trunc", [], .exactly 1, .unary Number.trunc⟩,
  ⟨"sign", [], .exactly 1, .unary sign⟩,
  ⟨"sqrt", [], .exactly 1, .unary Float.sqrt⟩,
  ⟨"cbrt", [], .exactly 1, .unary Number.cubeRoot⟩,
  ⟨"exp", [], .exactly 1, .unary Float.exp⟩,
  ⟨"log", ["ln"], .exactly 1, .unary Float.log⟩,
  ⟨"log10", [], .exactly 1, .unary Float.log10⟩,
  ⟨"log2", [], .exactly 1, .unary Float.log2⟩,
  ⟨"sin", [], .exactly 1, .unary Float.sin⟩,
  ⟨"cos", [], .exactly 1, .unary Float.cos⟩,
  ⟨"tan", [], .exactly 1, .unary Float.tan⟩,
  ⟨"pow", [], .exactly 2, .binary Float.pow⟩,
  ⟨"min", [], .between 1 none, .series least⟩,
  ⟨"max", [], .between 1 none, .series greatest⟩]

/-- No body looks up more arguments than the least number that its function may be given. -/
theorem Function.positions_le_least : ∀ f ∈ functions, f.body.positions ≤ f.arity.least := by
  decide

/-- **Every body finds the arguments that it looks up** where the arity allows their number. -/
theorem Function.positions_le_of_allows {f : Function} {count : Nat} (hf : f ∈ functions)
    (h : f.arity.allows count = true) : f.body.positions ≤ count :=
  Nat.le_trans (positions_le_least f hf) (Arity.least_le_of_allows h)

/-- The functions under all their names. -/
def functionDirectory : Directory Function := .ofNamed Function.names functions

/-- The function of that name. -/
def Function.find? (name : String) : Option Function := functionDirectory.get? name

/-! ### Constants -/

/-- Numbers that have a name of their own. -/
def constantDirectory : Directory Float := .ofList [
  ("PI", 3.14159265358979323846),
  ("E", 2.71828182845904523536),
  ("LN2", 0.693147180559945309417),
  ("LN10", 2.30258509299404568402),
  ("LOG2E", 1.44269504088896340736),
  ("LOG10E", 0.434294481903251827651),
  ("SQRT2", 1.41421356237309504880),
  ("SQRT1_2", 0.707106781186547524401)]

/-- The constant of that name. -/
def constant? (name : String) : Option Float := constantDirectory.get? name

end RuleConditions
