import RuleConditions.Proofs.Outcome

/-!
# Errors tell the truth

An error of an evaluation names what is wrong with the tokens that were evaluated, and all of it can
be found there: the unbound name, the call of a function that does not exist, the array that is
none, the tokens that do not form an operand.  `RuleError.TrueOf` spells out for each error what it
says of a slice.

An error comes up in some part of a slice.  What it says of the part it says of the slice, since the
part stands in the slice in one piece and is shorter (`RuleError.TrueOf.of_part`); so it is enough
that the rules themselves make true errors only (`Shape.Fault.trueOf`).
-/

namespace RuleConditions

variable {scope : Scope} {depth : Nat} {ts part : List Token} {e : RuleError}

/-! ### What an error says -/

/-- What an error says of a slice that is evaluated from a depth.  The errors of the checks before
an evaluation say nothing that could be true of it, nor does one about a missing operator. -/
def RuleError.TrueOf (scope : Scope) (depth : Nat) (ts : List Token) : RuleError → Prop
  | .unknownVariable name =>
    scope.bindings.get? name = none ∧
      ([.ident name, .symbol (.opening .square)] <:+: ts ∨
        (keyword? name = none ∧ constant? name = none ∧
          (.ident name ∈ ts ∨ (.number name ∈ ts ∧ isNumeral name.toList = false))))
  | .unknownFunction name =>
    Function.find? name = none ∧ [.ident name, .symbol (.opening .round)] <:+: ts
  | .notAnArray name found =>
    [.ident name, .symbol (.opening .square)] <:+: ts ∧
      ∃ value, scope.bindings.get? name = some value ∧ value.type = found ∧ found ≠ .array
  | .arity mismatch =>
    ∃ name interior f,
      .ident name :: .symbol (.opening .round) ::
        (interior ++ [.symbol (.closing .round)]) <:+: ts ∧
      Function.find? name = some f ∧ mismatch.function = f.name ∧
      f.arity.fault? (arguments interior).length = some mismatch.fault
  | .invalidExpression what =>
    (∀ op, what ≠ .unsupported op) ∧
      (what.text = "empty expression" ∨
        ∃ slice, slice ≠ [] ∧ slice <:+: ts ∧ what.text = " ".intercalate (slice.map Token.text))
  | .tooDeep max => max = min scope.maxDepth 256 ∧ max - depth ≤ ts.length
  | .tooLong .. | .denied _ | .invalidCharacter .. | .unterminatedString _ | .tooComplex ..
  | .unbalanced => False

/-- What an error says of a part is true of the slice. -/
theorem RuleError.TrueOf.of_part (h : e.TrueOf scope (depth + 1) part) (hinside : part <:+: ts)
    (hlength : part.length < ts.length) : e.TrueOf scope depth ts := by
  cases e with
  | unknownVariable name =>
    obtain ⟨hunbound, hsquare | ⟨hkey, hconst, hword⟩⟩ := h
    · exact ⟨hunbound, .inl (hsquare.trans hinside)⟩
    · refine ⟨hunbound, .inr ⟨hkey, hconst, ?_⟩⟩
      exact hword.imp (hinside.subset ·) (And.imp_left (hinside.subset ·))
  | unknownFunction name => exact ⟨h.1, h.2.trans hinside⟩
  | notAnArray name found => exact ⟨h.1.trans hinside, h.2⟩
  | arity mismatch =>
    obtain ⟨name, interior, f, hcall, hf⟩ := h
    exact ⟨name, interior, f, hcall.trans hinside, hf⟩
  | invalidExpression what =>
    obtain ⟨hfound, hempty | ⟨slice, hne, hslice, htext⟩⟩ := h
    · exact ⟨hfound, .inl hempty⟩
    · exact ⟨hfound, .inr ⟨slice, hne, hslice.trans hinside, htext⟩⟩
  | tooDeep max =>
    obtain ⟨hmax, hdepth⟩ := h
    refine ⟨hmax, ?_⟩
    omega
  | _ => exact absurd h id

/-! ### The rules -/

theorem Shape.ne_nil_of_read_eq_unreadable {p : Precedence} {slice : List Token}
    (h : read p ts = .unreadable slice) : slice ≠ [] := by
  rintro rfl
  have htokens := tokens_read p ts
  rw [h, tokens] at htokens
  rw [← htokens] at h
  exact absurd h (by simp [read])

/-- **The rules make true errors only.** -/
theorem Shape.Fault.trueOf (h : (Shape.read scope.precedence ts).Fault scope.bindings e) :
    e.TrueOf scope depth ts := by
  have htokens := Shape.tokens_read scope.precedence ts
  have hunreadable : ∀ slice, Shape.read scope.precedence ts = .unreadable slice → slice ≠ [] :=
    fun slice => Shape.ne_nil_of_read_eq_unreadable
  generalize Shape.read scope.precedence ts = s at h htokens hunreadable
  cases h with
  | empty => exact ⟨by simp, .inl rfl⟩
  | unreadable slice =>
    exact ⟨by simp, .inr ⟨slice, hunreadable slice rfl, htokens ▸ List.infix_rfl, rfl⟩⟩
  | unknownFunction interior h =>
    exact ⟨h, htokens ▸ (List.prefix_append [_, _] _).isInfix⟩
  | @arity name interior f fault hf h =>
    exact ⟨name, interior, f, htokens ▸ List.infix_rfl, hf, rfl, h⟩
  | unboundArray position h =>
    exact ⟨h, .inl (htokens ▸ (List.prefix_append [_, _] _).isInfix)⟩
  | @notAnArray name value position h hitems =>
    refine ⟨htokens ▸ (List.prefix_append [_, _] _).isInfix, value, h, rfl, ?_⟩
    cases value with
    | array items => exact absurd hitems (by simp [Value.items?])
    | _ => simp [Value.type]
  | @unboundWord t name hword hfixed h =>
    rw [fixedName?, Option.or_eq_none_iff, Option.map_eq_none_iff] at hfixed
    refine ⟨h, .inr ⟨hfixed.1, hfixed.2, ?_⟩⟩
    rw [← htokens]
    exact hword.imp (fun ht => by simp [Shape.tokens, ht])
      (And.imp_left fun ht => by simp [Shape.tokens, ht])
  | @meaningless t h => exact ⟨by simp, .inr ⟨[t], by simp, htokens ▸ List.infix_rfl, rfl⟩⟩

/-- **An evaluation makes true errors only**, however deep in the slice they come up. -/
theorem failsOnly_trueOf (scope : Scope) (ts : List Token) (depth : Nat) :
    FailsOnly (RuleError.TrueOf scope depth ts) (evaluate scope ts depth).outcome := by
  induction ts using Shape.induction scope.precedence generalizing depth with
  | step ts ih =>
    rw [outcome_evaluate]
    split
    · refine failsOnly_error ⟨rfl, ?_⟩
      omega
    · refine Shape.failsOnly_value (fun e he => he.trueOf) fun part hpart => ?_
      have hinside := Shape.isInfix_of_mem_parts hpart
      have hlength := Shape.length_lt_of_mem_parts hpart
      rw [Shape.tokens_read] at hinside hlength
      exact (ih part hpart (depth + 1)).imp fun e he => he.of_part hinside hlength

/-- **Every error is true**: what it says of the tokens, the bindings and the depth is so.  It is
never one of the checks before an evaluation, and never about an operator that is missing in its
directory, since every operator that a slice was split on is found by its text. -/
theorem trueOf_of_outcome_eq_error (scope : Scope) (ts : List Token) (depth : Nat) (e : RuleError)
    (h : (evaluate scope ts depth).outcome = .error e) :
    e.TrueOf scope depth ts ∧
      ∀ split ∈ (evaluate scope ts depth).splits, split.op.lookUp? = some split.op :=
  ⟨failsOnly_trueOf scope ts depth e h, fun split _ => split.op.lookUp?_eq⟩

/-- The array that is none stands behind a sign in the second argument of a call. -/
theorem trueOf_of_outcome_eq_error_of_argument :
    let scope : Scope := ⟨.ofList [("x", .null), ("xs", .string "ys")], .legacy, 64⟩
    let ts : List Token := [.ident "max", .symbol (.opening .round), .ident "x", .symbol .comma,
      .symbol (.operator (.arithmetic .subtract)), .ident "xs", .symbol (.opening .square),
      .number "0", .symbol (.closing .square), .symbol (.closing .round)]
    (evaluate scope ts 0).outcome = .error (.notAnArray "xs" .string) ∧
      [.ident "xs", .symbol (.opening .square)] <:+: ts ∧
      ∃ value, scope.bindings.get? "xs" = some value ∧ value.type = .string ∧
        ValueType.string ≠ .array := by
  intro scope ts
  let index : List Token := [.ident "xs", .symbol (.opening .square), .number "0",
    .symbol (.closing .square)]
  let negative : List Token := .symbol (.operator (.arithmetic .subtract)) :: index
  let interior : List Token := .ident "x" :: .symbol .comma :: negative
  have hfirst : (evaluate scope [.ident "x"] 1).outcome = .ok .null := by
    rw [outcome_evaluate]
    rfl
  have hindex : (evaluate scope index 2).outcome = .error (.notAnArray "xs" .string) := by
    rw [outcome_evaluate]
    rfl
  have hnegative : (evaluate scope negative 1).outcome = .error (.notAnArray "xs" .string) := by
    have hread : Shape.read scope.precedence negative = .negative index := by decide
    rw [outcome_evaluate, hread, Shape.value, hindex]
    rfl
  have hargs : arguments interior = [[.ident "x"], negative] := by decide
  have hcall : (evaluate scope ts 0).outcome = .error (.notAnArray "xs" .string) := by
    have hread : Shape.read scope.precedence ts = .call "max" interior := by decide
    rw [outcome_evaluate, hread, Shape.value, hargs, List.mapM_cons, List.mapM_cons, hfirst,
      hnegative]
    rfl
  exact ⟨hcall, (trueOf_of_outcome_eq_error scope ts 0 _ hcall).1⟩

end RuleConditions
