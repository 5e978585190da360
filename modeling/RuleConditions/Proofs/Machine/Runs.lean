import RuleConditions.Proofs.Checks
import RuleConditions.Proofs.Directories
import RuleConditions.Proofs.Machine.Shapes
import RuleConditions.Proofs.Machine.Tokens

/-!
# Evaluation on the machine

Slices are evaluated by calls of `evaluate` within each other.  The depth is a count that is kept up
to date, and the body of a function looks its arguments up by position.

Every evaluation ends, with the outcome and the depth that it has elsewhere, and no access fails on
the way (`ends_evaluate`).  Each call is for a shorter slice, so the calls within each other are no
more than the tokens and one.  The depth never passes the limit, so it always fits a word, and a
function of the catalogue is called only with as many arguments as its body looks up (`ends_call`).
With the tokens of a text (`tokenize_eq`) and the test for pairing (`pairs_eq`) this makes a whole
condition end (`ends_run`).
-/

namespace RuleConditions.Machine

variable {α β : Type} {short : Prop} {depth calls rounds : Nat} {bindings : Bindings} {s : Shape}
  {ts : List Token}

/-- A computation that keeps the number of slices under evaluation, the depth, and may fail with an
error of conditions. -/
abbrev Procedure (α : Type) := ExceptT RuleError (StateT Nat Machine) α

/-! ### Calls -/

/-- What a function's body computes.  It looks its arguments up by position. -/
def bodyValue (body : Body) (args : List Float) : Machine Float :=
  match body with
  | .unary f => return f (← lookUp args 0)
  | .binary f => return f (← lookUp args 0) (← lookUp args 1)
  | .series f => return f args

/-- Calls a function, if it takes as many arguments. -/
def call (f : Function) (args : List Float) : Procedure Value :=
  match f.arity.fault? args.length with
  | some fault => throw (.arity ⟨f.name, fault⟩)
  | none => return .number (← bodyValue f.body args)

/-! ### Evaluation -/

/-- What a shape asks for: the parts that are evaluated in order, and what is done with their
values. -/
structure Agenda where
  parts : List (List Token)
  finish : List Value → Procedure Value

/-- The agenda of a shape, once its operator or the name in front of its brackets is looked up. -/
def agenda (bindings : Bindings) (s : Shape) : Procedure Agenda :=
  match s with
  | .empty => throw (.invalidExpression .empty)
  | .binary left op right => do
    let found ← operatorOfSymbol op
    return ⟨[left, right], fun values => return found.apply (← lookUp values 0) (← lookUp values 1)⟩
  | .group interior => return ⟨[interior], fun values => lookUp values 0⟩
  | .call name interior => do
    let f ← functionOfName name
    return ⟨← argumentsIn interior, fun values => call f (values.map Value.toNumber)⟩
  | .index name position => do
    let items ← itemsOfName bindings name
    return ⟨[position], fun values => return itemAt items (← lookUp values 0).toNumber⟩
  | .not operand => return ⟨[operand], fun values => return .bool !(← lookUp values 0).truthy⟩
  | .negative operand =>
    return ⟨[operand], fun values => return .number (-(← lookUp values 0).toNumber)⟩
  | .single t => return ⟨[], fun _ => valueOfToken bindings t⟩
  | .unreadable slice => throw (.invalidExpression (.slice slice))

/-- Evaluates a slice, with no more than a number of calls within each other.  One slice more is
under evaluation in the meantime, whether that fails or not, if this does not pass the limit. -/
def evaluate (scope : Scope) :
    (calls : Nat) → List Token → StateT Nat Machine (Except RuleError Value)
  | 0, _ => StateT.lift unfinished
  | calls + 1, ts => do
    let depth ← unsigned ((← get) + 1)
    if scope.depthLimit < depth then return .error (.tooDeep scope.depthLimit)
    else
      set depth
      let s ← shape scope.precedence ts
      let outcome ← ExceptT.run (do
        let a ← agenda scope.bindings s
        a.finish (← a.parts.mapM fun part => evaluate scope calls part))
      modify fun depth => depth - 1
      return outcome

/-- Refuses too many tokens, and brackets that do not pair if the precedence minds brackets. -/
def checkTokens (o : Options) (ts : List Token) : Procedure Unit :=
  if o.maxTokens < ts.length then throw (.tooComplex ts.length o.maxTokens)
  else if o.precedence.mindsBrackets then do
    if ← pairs [] ts then return () else throw .unbalanced
  else return ()

/-- Evaluates a condition: the text is screened, read as tokens, checked again and evaluated. -/
def run (o : Options) (bindings : Bindings) (rounds : Nat) (text : String) : Procedure Value := do
  o.screen text
  let ts ← (← tokenize rounds text)
  checkTokens o ts
  evaluate (o.scope bindings) rounds ts

/-! ### Procedures that end -/

/-- From that depth the procedure comes to the outcome and to the same depth, unless a counter of
brackets overflows, which it does not where `short` holds. -/
def Ends (short : Prop) (x : Procedure α) (depth : Nat) (outcome : Except RuleError α) : Prop :=
  Gives short (x.run.run depth) (outcome, depth)

namespace Ends

variable {x : Procedure α} {f : α → Procedure β} {outcome : Except RuleError α}
  {g : α → Except RuleError β}

theorem bind (h : Ends short x depth outcome)
    (hf : ∀ a, outcome = .ok a → Ends short (f a) depth (g a)) :
    Ends short (x >>= f) depth (outcome >>= g) := by
  refine Gives.bind h ?_
  cases outcome with
  | error e => exact .inl rfl
  | ok a => exact hf a rfl

theorem lift_bind {x : Machine α} {a : α} {outcome : Except RuleError β} (h : Gives short x a)
    (hf : Ends short (f a) depth outcome) : Ends short (liftM x >>= f) depth outcome := by
  obtain rfl | ⟨hlong, count, rfl⟩ := h
  · exact hf
  · exact .inr ⟨hlong, count, rfl⟩

theorem of_except (outcome : Except RuleError α) : Ends short (liftM outcome) depth outcome :=
  .inl rfl

theorem of_pure (a : α) : Ends short (pure a) depth (.ok a) := .inl rfl

theorem of_throw (e : RuleError) : Ends short (throw e : Procedure α) depth (.error e) := .inl rfl

theorem mapM {f : α → Procedure β} {g : α → Except RuleError β} {items : List α}
    (h : ∀ item ∈ items, Ends short (f item) depth (g item)) :
    Ends short (items.mapM f) depth (items.mapM g) := by
  induction items with
  | nil => exact of_pure []
  | cons item items ih =>
    obtain ⟨hitem, hitems⟩ := List.forall_mem_cons.mp h
    rw [List.mapM_cons, List.mapM_cons]
    exact hitem.bind fun b _ => (ih hitems).bind fun bs _ => of_pure (b :: bs)

end Ends

/-! ### No fault -/

/-- A body with a result looks up no argument that is missing. -/
theorem bodyValue_eq {body : Body} {args : List Float} {x : Float} (h : body.run? args = some x) :
    bodyValue body args = pure x := by
  unfold Body.run? at h
  split at h
  · rw [← Option.some.inj h]
    rfl
  · rw [← Option.some.inj h]
    rfl
  · rw [← Option.some.inj h]
    rfl
  · exact absurd h (by simp)

/-- **A function of the catalogue** has a result where the number of arguments is allowed, and its
body looks up none that is missing. -/
theorem exists_bodyValue_eq {f : Function} (hf : f ∈ functions) {args : List Float}
    (h : f.arity.allows args.length = true) :
    ∃ x, f.body.run? args = some x ∧ bodyValue f.body args = pure x := by
  have hsome := f.body.isSome_run? args
  rw [decide_eq_true (Function.positions_le_of_allows hf h)] at hsome
  obtain ⟨x, hx⟩ := Option.isSome_iff_exists.mp hsome
  exact ⟨x, hx, bodyValue_eq hx⟩

/-- A row of the catalogue with fewer arguments than its body looks up would stop the machine. -/
example : bodyValue (.binary Float.pow) [2] = throw (.outside 1 1) := rfl

theorem ends_call {f : Function} (hf : f ∈ functions) (args : List Float) :
    Ends short (call f args) depth (valueOfCall f args) := by
  rw [valueOfCall, call, Function.call]
  cases hfault : f.arity.fault? args.length with
  | some fault => exact Ends.of_throw _
  | none =>
    have hallows : f.arity.allows args.length = true := Option.isNone_iff_eq_none.mpr hfault
    obtain ⟨x, hx, hbody⟩ := exists_bodyValue_eq hf hallows
    rw [hx]
    exact Ends.lift_bind (.inl hbody) (Ends.of_pure (Value.number x))

/-- Whether arguments are turned into numbers one by one or together comes to the same. -/
theorem mapM_toNumber_bind (inner : List Token → Except RuleError Value) (parts : List (List Token))
    (k : List Float → Except RuleError Value) :
    ((parts.mapM fun part => do return (← inner part).toNumber) >>= k) =
      parts.mapM inner >>= fun values => k (values.map Value.toNumber) := by
  induction parts generalizing k with
  | nil => rfl
  | cons part parts ih =>
    simp only [List.mapM_cons, bind_assoc, pure_bind]
    congr 1
    funext value
    exact ih fun xs => k (value.toNumber :: xs)

section Rules

variable {f : List Token → Procedure Value} {inner : List Token → Except RuleError Value}
  {left right part : List Token}

/-- The value of the only part is at position zero. -/
theorem Ends.single {k : List Value → Procedure β} {g : Value → Except RuleError β}
    (h : Ends short (f part) depth (inner part)) (hk : ∀ a, Ends short (k [a]) depth (g a)) :
    Ends short ([part].mapM f >>= k) depth (inner part >>= g) := by
  simp only [List.mapM_cons, List.mapM_nil, bind_assoc, pure_bind]
  exact h.bind fun a _ => hk a

theorem Ends.pair {k : List Value → Procedure β} {g : Value → Value → Except RuleError β}
    (hleft : Ends short (f left) depth (inner left))
    (hright : Ends short (f right) depth (inner right))
    (hk : ∀ a b, Ends short (k [a, b]) depth (g a b)) :
    Ends short ([left, right].mapM f >>= k) depth
      (inner left >>= fun a => inner right >>= fun b => g a b) := by
  simp only [List.mapM_cons, List.mapM_nil, bind_assoc, pure_bind]
  exact hleft.bind fun a _ => hright.bind fun b _ => hk a b

/-- **The rule for a shape** is followed without a fault, if its parts are evaluated so. -/
theorem ends_agenda (hs : short → IsShort s.tokens)
    (h : ∀ part ∈ s.parts, Ends short (f part) depth (inner part)) :
    Ends short (do let a ← agenda bindings s; a.finish (← a.parts.mapM f)) depth
      (s.value bindings inner) := by
  cases s with
  | empty => exact Ends.of_throw _
  | unreadable slice => exact Ends.of_throw _
  | single t => exact Ends.of_except _
  | group interior =>
    have hgroup : Ends short ([interior].mapM f >>= fun values => lookUp values 0) depth
        (inner interior >>= pure) :=
      Ends.single (h interior (by simp [Shape.parts])) fun a => .inl rfl
    rwa [bind_pure] at hgroup
  | not operand => exact Ends.single (h operand (by simp [Shape.parts])) fun a => .inl rfl
  | negative operand => exact Ends.single (h operand (by simp [Shape.parts])) fun a => .inl rfl
  | binary left op right =>
    rw [agenda, operatorOfSymbol_eq]
    exact Ends.pair (h left (by simp [Shape.parts])) (h right (by simp [Shape.parts]))
      fun a b => .inl rfl
  | index name position =>
    have hposition := h position (by simp [Shape.parts])
    rw [agenda, Shape.value]
    cases itemsOfName bindings name with
    | error e => exact Ends.of_throw e
    | ok items => exact Ends.single hposition fun a => .inl rfl
  | call name interior =>
    have hinterior : short → IsShort interior := fun hshort =>
      (hs hshort).of_le (by simp [Shape.tokens]; omega)
    have hargs : Ends short ((arguments interior).mapM f) depth ((arguments interior).mapM inner) :=
      Ends.mapM fun arg harg => h arg harg
    rw [agenda, Shape.value]
    simp only [mapM_toNumber_bind]
    cases hname : functionOfName name with
    | error e => exact Ends.of_throw e
    | ok f =>
      have hf : f ∈ functions :=
        (Function.find?_eq_some_iff.mp (functionOfName_eq_ok_iff.mp hname)).1
      obtain harguments | ⟨hlong, count, harguments⟩ := (gives_argumentsIn interior).mono hinterior
      · rw [harguments]
        exact hargs.bind fun values _ => ends_call hf (values.map Value.toNumber)
      · rw [harguments]
        exact .inr ⟨hlong, count, rfl⟩

end Rules

/-- An evaluation counts the depth up, follows the rule for the shape, and counts the depth down. -/
theorem run_evaluate (scope : Scope) (ts : List Token) (hdepth : depth ≤ scope.depthLimit) :
    (evaluate scope (calls + 1) ts).run depth =
      if scope.depthLimit < depth + 1 then pure (.error (.tooDeep scope.depthLimit), depth)
      else do
        let s ← shape scope.precedence ts
        let q ← (do
          let a ← agenda scope.bindings s
          a.finish (← a.parts.mapM fun part => evaluate scope calls part) : Procedure Value).run.run
            (depth + 1)
        return (q.1, q.2 - 1) := by
  have hnext : unsigned (depth + 1) = pure (depth + 1) := by
    have hlimit : scope.depthLimit ≤ depthCeiling := Nat.min_le_right _ _
    have hceiling : depthCeiling + 1 < wordBound := by decide
    exact unsigned_eq (by omega)
  rw [evaluate]
  by_cases hlimit : scope.depthLimit < depth + 1 <;> simp [hnext, hlimit]

/-- **An evaluation ends** with the outcome that the slice has, and with the depth it started at.
The calls within each other are for shorter and shorter slices. -/
theorem ends_evaluate (scope : Scope) (ts : List Token) (hcalls : ts.length < calls)
    (hdepth : depth ≤ scope.depthLimit) :
    Ends (IsShort ts) (evaluate scope calls ts) depth
      (RuleConditions.evaluate scope ts depth).outcome := by
  induction calls generalizing ts depth with
  | zero => exact absurd hcalls (Nat.not_lt_zero _)
  | succ calls ih =>
    unfold Ends
    rw [ExceptT.run, run_evaluate scope ts hdepth, outcome_evaluate]
    by_cases hlimit : scope.depthLimit < depth + 1
    · rw [if_pos hlimit, if_pos hlimit]
      exact .inl rfl
    · rw [if_neg hlimit, if_neg hlimit]
      refine (gives_shape scope.precedence ts).bind ?_
      have hrule := @ends_agenda (IsShort ts) (depth + 1) scope.bindings
        (Shape.read scope.precedence ts) (fun part => evaluate scope calls part)
        (fun part => (RuleConditions.evaluate scope part (depth + 1)).outcome) ?_ ?_
      · exact Gives.bind hrule (.inl rfl)
      · rw [Shape.tokens_read]
        exact id
      · intro part hpart
        have hlength := Shape.length_lt_of_mem_parts hpart
        rw [Shape.tokens_read] at hlength
        have hfewer : part.length < calls := Nat.lt_of_lt_of_le hlength (Nat.le_of_lt_succ hcalls)
        exact (ih part hfewer (Nat.not_lt.mp hlimit)).mono (IsShort.of_le (Nat.le_of_lt hlength))

theorem ends_checkTokens (o : Options) (ts : List Token) :
    Ends short (checkTokens o ts) depth (o.checkTokens ts) := by
  rw [checkTokens, Options.checkTokens]
  split
  · exact Ends.of_throw _
  · split
    · refine Ends.lift_bind (.inl (pairs_eq [] ts)) ?_
      rw [checkPairing, bracketsPair, List.reverse_nil]
      split
      · exact Ends.of_pure ()
      · exact Ends.of_throw _
    · exact Ends.of_pure ()

/-- Each token of a text has a character of its own. -/
theorem length_le_of_tokenize {text : String} (h : RuleConditions.tokenize text = .ok ts) :
    ts.length ≤ text.length := by
  obtain ⟨pieces, hread, rfl⟩ := tokenize_eq_ok_iff.mp h
  calc (SpeltLexeme.tokensAll pieces).length
      ≤ text.toList.countP fun c => !Text.isBlank c := hread.length_tokensAll_le
    _ ≤ text.toList.length := List.countP_le_length
    _ = text.length := String.length_toList

/-- **A condition is evaluated to the end.** -/
theorem ends_run (o : Options) (bindings : Bindings) {text : String}
    (hrounds : text.length < rounds) :
    Ends (∀ ts, o.tokens text = .ok ts → IsShort ts) (run o bindings rounds text) 0
      (o.valueOf bindings text) := by
  rw [Options.valueOf_eq, Options.valueTested, run]
  refine (Ends.of_except _).bind fun _ hscreen => ?_
  refine Ends.lift_bind (.inl (tokenize_eq hrounds)) ?_
  refine (Ends.of_except _).bind fun ts hts => ?_
  refine (ends_checkTokens o ts).bind fun _ hcheck => ?_
  have htokens : o.tokens text = .ok ts := by
    rw [Options.tokens, hscreen, hts]
    change (o.checkTokens ts >>= fun _ => .ok ts) = _
    rw [hcheck]
    rfl
  have hcalls : ts.length < rounds := Nat.lt_of_le_of_lt (length_le_of_tokenize hts) hrounds
  exact (ends_evaluate (o.scope bindings) ts hcalls (Nat.zero_le _)).mono fun hshort =>
    hshort ts htokens

theorem length_le_of_tokens {o : Options} {text : String} (h : o.tokens text = .ok ts) :
    ts.length ≤ o.maxTokens := by
  obtain ⟨_, -, h⟩ := bind_eq_ok_iff.mp h
  obtain ⟨read, -, h⟩ := bind_eq_ok_iff.mp h
  obtain ⟨_, hcheck, h⟩ := bind_eq_ok_iff.mp h
  obtain rfl : read = ts := Except.ok.inj h
  rw [Options.checkTokens] at hcheck
  split at hcheck
  · exact absurd hcheck (by simp)
  · rename_i hcount
    exact Nat.not_lt.mp hcount

/-- Under a limit that the counters hold, **every text** is judged to the end. -/
theorem run_eq_pure {o : Options} (hmax : o.maxTokens < counterBound) (bindings : Bindings)
    {text : String} (hrounds : text.length < rounds) :
    run o bindings rounds text 0 = pure (o.valueOf bindings text, 0) :=
  (ends_run o bindings hrounds).eq_pure fun _ hts =>
    Nat.lt_of_le_of_lt (length_le_of_tokens hts) hmax

end RuleConditions.Machine
