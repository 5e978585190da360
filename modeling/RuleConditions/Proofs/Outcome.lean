import RuleConditions.Proofs.Evaluation

/-!
# Outcomes

A row of computations succeeds only if each of them does (`bind_eq_ok_iff`, `mapM_eq_ok`), and it
fails only in the ways they can fail: `FailsOnly P` says that every error of an outcome is one of
those in `P`.  A rule of evaluation fails with an error of a part or with one of its own
(`Shape.failsOnly_value`), and `Shape.Fault` lists the latter with their causes.  None of them is
about the depth, so a slice with fewer tokens than there is depth left is never too deep
(`failsOnly_evaluate`).
-/

namespace RuleConditions

variable {α β : Type} {P : RuleError → Prop}

/-! ### Success -/

theorem bind_eq_ok_iff {x : Except RuleError α} {f : α → Except RuleError β} {b : β} :
    x >>= f = .ok b ↔ ∃ a, x = .ok a ∧ f a = .ok b := by
  cases x with
  | error e => simp [bind, Except.bind]
  | ok a => simp [bind, Except.bind]

theorem mapM_eq_ok {f : α → Except RuleError β} {xs : List α} {ys : List β}
    (h : xs.mapM f = .ok ys) : ys.length = xs.length ∧ ∀ x ∈ xs, ∃ y, f x = .ok y := by
  induction xs generalizing ys with
  | nil =>
    obtain rfl : [] = ys := Except.ok.inj h
    exact ⟨rfl, fun x hx => absurd hx (by simp)⟩
  | cons x xs ih =>
    rw [List.mapM_cons, bind_eq_ok_iff] at h
    obtain ⟨y, hy, h⟩ := h
    obtain ⟨zs, hzs, h⟩ := bind_eq_ok_iff.mp h
    obtain rfl : y :: zs = ys := Except.ok.inj h
    obtain ⟨hlength, hmem⟩ := ih hzs
    refine ⟨by rw [List.length_cons, List.length_cons, hlength], fun z hz => ?_⟩
    obtain rfl | hz := List.mem_cons.mp hz
    · exact ⟨y, hy⟩
    · exact hmem z hz

/-! ### Failure -/

/-- Every error of the outcome is one of those in `P`. -/
def FailsOnly (P : RuleError → Prop) (outcome : Except RuleError α) : Prop :=
  ∀ e, outcome = .error e → P e

theorem failsOnly_ok (a : α) : FailsOnly P (.ok a : Except RuleError α) :=
  fun _ h => absurd h (by simp)

theorem failsOnly_error {e : RuleError} (h : P e) :
    FailsOnly P (.error e : Except RuleError α) := by
  intro e' he
  rwa [← Except.error.inj he]

theorem FailsOnly.bind {x : Except RuleError α} {f : α → Except RuleError β} (hx : FailsOnly P x)
    (hf : ∀ a, x = .ok a → FailsOnly P (f a)) : FailsOnly P (x >>= f) := by
  cases x with
  | error e => exact failsOnly_error (hx e rfl)
  | ok a => exact hf a rfl

theorem FailsOnly.mapM {f : α → Except RuleError β} {xs : List α}
    (h : ∀ x ∈ xs, FailsOnly P (f x)) : FailsOnly P (xs.mapM f) := by
  induction xs with
  | nil => exact failsOnly_ok []
  | cons x xs ih =>
    rw [List.mapM_cons]
    refine (h x (List.mem_cons_self ..)).bind fun y _ => ?_
    refine (ih fun z hz => h z (List.mem_cons_of_mem _ hz)).bind fun ys _ => ?_
    exact failsOnly_ok (y :: ys)

/-! ### The errors of the rules -/

theorem functionOfName_eq_ok_iff {name : String} {f : Function} :
    functionOfName name = .ok f ↔ Function.find? name = some f := by
  unfold functionOfName
  cases Function.find? name <;> simp

/-- The errors that the rule for a shape makes itself; all others it passes on from the parts. -/
inductive Shape.Fault (bindings : Bindings) : Shape → RuleError → Prop
  | empty : Fault bindings .empty (.invalidExpression .empty)
  | unreadable (slice : List Token) :
      Fault bindings (.unreadable slice) (.invalidExpression (.slice slice))
  | unknownFunction {name : String} (interior : List Token) (h : Function.find? name = none) :
      Fault bindings (.call name interior) (.unknownFunction name)
  | arity {name : String} {interior : List Token} {f : Function} {fault : ArityFault}
      (hf : Function.find? name = some f)
      (h : f.arity.fault? (arguments interior).length = some fault) :
      Fault bindings (.call name interior) (.arity ⟨f.name, fault⟩)
  | unboundArray {name : String} (position : List Token) (h : bindings.get? name = none) :
      Fault bindings (.index name position) (.unknownVariable name)
  | notAnArray {name : String} {value : Value} (position : List Token)
      (h : bindings.get? name = some value) (hitems : value.items? = none) :
      Fault bindings (.index name position) (.notAnArray name value.type)
  | unboundWord {t : Token} {name : String}
      (hword : t = .ident name ∨ (t = .number name ∧ isNumeral name.toList = false))
      (hfixed : fixedName? name = none) (h : bindings.get? name = none) :
      Fault bindings (.single t) (.unknownVariable name)
  | meaningless {t : Token}
      (h : valueOfToken bindings t = .error (.invalidExpression (.slice [t]))) :
      Fault bindings (.single t) (.invalidExpression (.slice [t]))

namespace Shape.Fault

variable {bindings : Bindings}

/-- The faults of a single token are the errors of its value. -/
theorem valueOfToken_eq {t : Token} {e : RuleError} (h : (Shape.single t).Fault bindings e) :
    valueOfToken bindings t = .error e := by
  cases h with
  | unboundWord hword hfixed h =>
    obtain rfl | ⟨rfl, hnumeral⟩ := hword
    · simp [valueOfToken, valueOfName, hfixed, h]
    · simp [valueOfToken, valueOfName, hnumeral, hfixed, h]
  | meaningless h => exact h

theorem failsOnly_valueOfName {t : Token} {name : String}
    (hword : t = .ident name ∨ (t = .number name ∧ isNumeral name.toList = false)) :
    FailsOnly (Fault bindings (.single t)) (valueOfName bindings name) := by
  unfold valueOfName
  cases hfixed : fixedName? name with
  | some value => exact failsOnly_ok value
  | none =>
    cases h : bindings.get? name with
    | some value => exact failsOnly_ok value
    | none => exact failsOnly_error (.unboundWord hword hfixed h)

theorem failsOnly_valueOfToken (t : Token) :
    FailsOnly (Fault bindings (.single t)) (valueOfToken bindings t) := by
  cases t with
  | ident name => exact failsOnly_valueOfName (.inl rfl)
  | str contents => exact failsOnly_ok _
  | symbol s => exact failsOnly_error (.meaningless rfl)
  | number word =>
    by_cases hnumeral : isNumeral word.toList = true
    · cases hread : Number.read? word.toList with
      | some x =>
        rw [valueOfToken, if_pos hnumeral, hread]
        exact failsOnly_ok _
      | none =>
        have herror : valueOfToken bindings (.number word) =
            .error (.invalidExpression (.slice [.number word])) := by
          rw [valueOfToken, if_pos hnumeral, hread]
        rw [herror]
        exact failsOnly_error (.meaningless herror)
    · rw [valueOfToken, if_neg hnumeral]
      exact failsOnly_valueOfName (.inr ⟨rfl, Bool.eq_false_iff.mpr hnumeral⟩)

theorem failsOnly_functionOfName (name : String) (interior : List Token) :
    FailsOnly (Fault bindings (.call name interior)) (functionOfName name) := by
  unfold functionOfName
  cases h : Function.find? name with
  | some f => exact failsOnly_ok f
  | none => exact failsOnly_error (.unknownFunction interior h)

theorem failsOnly_valueOfCall {name : String} {interior : List Token} {f : Function}
    {args : List Float} (hf : functionOfName name = .ok f)
    (hlength : args.length = (arguments interior).length) :
    FailsOnly (Fault bindings (.call name interior)) (valueOfCall f args) := by
  unfold valueOfCall Function.call
  rw [hlength]
  cases h : f.arity.fault? (arguments interior).length with
  | some fault => exact failsOnly_error (.arity (functionOfName_eq_ok_iff.mp hf) h)
  | none => exact failsOnly_ok _

theorem failsOnly_itemsOfName (name : String) (position : List Token) :
    FailsOnly (Fault bindings (.index name position)) (itemsOfName bindings name) := by
  unfold itemsOfName
  cases h : bindings.get? name with
  | none => exact failsOnly_error (.unboundArray position h)
  | some value =>
    cases hitems : value.items? with
    | none =>
      simp only [hitems]
      exact failsOnly_error (.notAnArray position h hitems)
    | some items =>
      simp only [hitems]
      exact failsOnly_ok items

end Shape.Fault

theorem FailsOnly.imp {Q : RuleError → Prop} {x : Except RuleError α} (h : FailsOnly P x)
    (himp : ∀ e, P e → Q e) : FailsOnly Q x :=
  fun e he => himp e (h e he)

/-- **A rule fails** with an error of its own or with one of a part. -/
theorem Shape.failsOnly_value {inner : List Token → Except RuleError Value} {s : Shape}
    {bindings : Bindings} (hfault : ∀ e, s.Fault bindings e → P e)
    (hparts : ∀ part ∈ s.parts, FailsOnly P (inner part)) :
    FailsOnly P (s.value bindings inner) := by
  cases s with
  | empty => exact failsOnly_error (hfault _ .empty)
  | unreadable slice => exact failsOnly_error (hfault _ (.unreadable slice))
  | binary left op right =>
    refine (hparts left (by simp [parts])).bind fun a _ => ?_
    exact (hparts right (by simp [parts])).bind fun b _ => failsOnly_ok _
  | group interior => exact hparts interior (by simp [parts])
  | call name interior =>
    refine ((Fault.failsOnly_functionOfName name interior).imp hfault).bind fun f hf => ?_
    refine (FailsOnly.mapM fun arg harg => ?_).bind fun args hargs => ?_
    · exact (hparts arg harg).bind fun value _ => failsOnly_ok _
    · exact (Fault.failsOnly_valueOfCall hf (mapM_eq_ok hargs).1).imp hfault
  | index name position =>
    refine ((Fault.failsOnly_itemsOfName name position).imp hfault).bind fun items _ => ?_
    exact (hparts position (by simp [parts])).bind fun value _ => failsOnly_ok _
  | not operand => exact (hparts operand (by simp [parts])).bind fun value _ => failsOnly_ok _
  | negative operand => exact (hparts operand (by simp [parts])).bind fun value _ => failsOnly_ok _
  | single t => exact (Fault.failsOnly_valueOfToken t).imp hfault

/-! ### Depth -/

/-- The errors that are not about the depth. -/
def NotTooDeep (e : RuleError) : Prop := ∀ max, e ≠ .tooDeep max

/-- No rule makes an error about the depth. -/
theorem Shape.Fault.notTooDeep {bindings : Bindings} {s : Shape} {e : RuleError}
    (h : s.Fault bindings e) : NotTooDeep e := by
  intro max
  cases h <;> simp

/-- **A slice is not too deep** with more depth left than it has tokens. -/
theorem failsOnly_evaluate (scope : Scope) (ts : List Token) (depth : Nat)
    (h : depth + ts.length < scope.depthLimit) :
    FailsOnly NotTooDeep (evaluate scope ts depth).outcome := by
  induction ts using Shape.induction scope.precedence generalizing depth with
  | step ts ih =>
    rw [outcome_evaluate, if_neg (by omega)]
    -- a part is one level deeper, but at least one token shorter
    refine Shape.failsOnly_value (fun e he => he.notTooDeep) fun part hpart =>
      ih part hpart (depth + 1) ?_
    have := Shape.length_lt_of_mem_parts hpart
    rw [Shape.tokens_read] at this
    omega

end RuleConditions
