import RuleConditions.Proofs.Machine.Runs
import RuleConditions.Proofs.Patterns

/-!
# Faults of a condition

What can go wrong on the machine from the text of a condition to its value.  For fewer accepted
tokens than `counterBound` nothing can; for more, a counter of open brackets may overflow, and that
is all (`finishes_without_fault`).

It does overflow in a slice that starts with so many opening brackets, whatever follows them
(`evaluate_eq_throw`): the first search for an operator counts them, whichever operator it wants.
The limits on characters and tokens are free, so a text of nothing but opening brackets may be let
through, and where brackets do not matter nothing refuses it earlier (`run_replicate_eq_throw`).
-/

namespace RuleConditions.Machine

variable {n calls rounds depth : Nat} {o : Options} {ts more : List Token} {b : Bracket}

/-! ### Too many open brackets -/

/-- A scan stops at the opening bracket that does not fit the counter any more. -/
theorem scan_eq_throw (s : Cut.Search) (side : Side) (ts more : List Token) (b : Bracket) {i : Nat}
    {level : Int} (found : Option Nat) (hlevel : 0 ≤ level) (hfits : level < counterBound)
    (hn : counterBound ≤ level + n) :
    scan s side ts (.replicate n (.symbol (.opening b)) ++ more) i level found =
      throw (.brackets counterBound) := by
  induction n generalizing i level with
  | zero => omega
  | succ n ih =>
    rw [List.replicate_succ, List.cons_append, scan]
    change (signed (level + 1) >>= _) = _
    by_cases hnext : level + 1 < counterBound
    · have hsigned : signed (level + 1) = pure (level + 1) := if_pos ⟨by omega, hnext⟩
      rw [hsigned, pure_bind]
      exact ih (by omega) hnext (by omega)
    · have hcount : level + 1 = counterBound := by omega
      have hsigned : signed (level + 1) = throw (.brackets (level + 1)) :=
        if_neg fun h => hnext h.2
      rw [hsigned, hcount]
      rfl

theorem shape_eq_throw (p : Precedence) (hn : counterBound ≤ n)
    (hts : .replicate n (.symbol (.opening b)) ++ more = ts) :
    shape p ts = throw (.brackets counterBound) := by
  have hscan : ∀ s side, scan s side ts ts 0 0 none = throw (.brackets counterBound) := by
    intro s side
    nth_rewrite 2 [← hts]
    exact scan_eq_throw s side ts more b none (Int.le_refl 0) (by decide) (by omega)
  -- no search comes to an end, so the first one decides
  have hsplit : splitPosition p ts = throw (.brackets counterBound) := by
    cases p <;>
    · rw [splitPosition, Precedence.levels, List.findSomeM?, hscan]
      rfl
  have hempty : ¬ts.isEmpty = true := by
    have hpos : 0 < counterBound := by decide
    simp [← hts]
    omega
  rw [shape, if_neg hempty, hsplit]
  rfl

/-- **Too many open brackets** at the start of a slice overflow their counter, whatever follows. -/
theorem evaluate_eq_throw {scope : Scope} (hn : counterBound ≤ n)
    (hdepth : depth < scope.depthLimit) :
    evaluate scope (calls + 1) (.replicate n (.symbol (.opening b)) ++ more) depth =
      throw (.brackets counterBound) := by
  have hrun := @run_evaluate depth calls scope (.replicate n (.symbol (.opening b)) ++ more)
    (Nat.le_of_lt hdepth)
  rw [if_neg (Nat.not_lt.mpr hdepth), shape_eq_throw scope.precedence hn rfl] at hrun
  exact hrun

/-- A condition whose tokens are accepted is evaluated. -/
theorem run_of_tokens {text : String} (bindings : Bindings) (hrounds : text.length < rounds)
    (h : o.tokens text = .ok ts) :
    run o bindings rounds text 0 = evaluate (o.scope bindings) rounds ts 0 := by
  obtain ⟨_, hscreen, h⟩ := bind_eq_ok_iff.mp h
  obtain ⟨read, hread, h⟩ := bind_eq_ok_iff.mp h
  obtain ⟨_, hcheck, h⟩ := bind_eq_ok_iff.mp h
  obtain rfl : read = ts := Except.ok.inj h
  have hchecked : (checkTokens o read).run.run 0 = pure (.ok (), 0) := by
    have hends := (@ends_checkTokens True 0 o read).eq_pure trivial
    rwa [hcheck] at hends
  rw [run, hscreen, tokenize_eq hrounds, hread]
  change ((checkTokens o read).run.run 0 >>= _) = _
  rw [hchecked]
  rfl

/-! ### Texts of opening brackets -/

theorem tokensFrom_replicate (n position : Nat) :
    tokensFrom position (.replicate n '(') = .ok (.replicate n (.symbol (.opening .round))) := by
  induction n generalizing position with
  | zero => exact tokensFrom_nil position
  | succ n ih =>
    have hnext : Lexeme.next '(' (.replicate n '(') =
        .ok (.token (.symbol (.opening .round)), .replicate n '(') := rfl
    exact tokensFrom_cons hnext (ih _)

theorem refuses_of_mem_denyRules :
    ∀ rule ∈ denyRules, Pattern.refuses rule.pattern '(' = true := by
  decide

/-- Every denied construct holds something else than opening brackets. -/
theorem denied?_replicate (n : Nat) : denied? (.replicate n '(') = none := by
  rw [denied?, Option.map_eq_none_iff, List.find?_eq_none]
  intro rule hrule
  rw [Pattern.occurs_eq_false_of_refuses (refuses_of_mem_denyRules rule hrule)
    fun d hd => List.eq_of_mem_replicate hd]
  exact Bool.false_ne_true

/-- Where brackets do not matter, opening brackets are accepted, as many as the limits allow. -/
theorem tokens_replicate (hlegacy : o.precedence = .legacy) (hlength : n ≤ o.maxLength)
    (hcount : n ≤ o.maxTokens) :
    o.tokens (.ofList (.replicate n '(')) = .ok (.replicate n (.symbol (.opening .round))) := by
  have hscreen : o.screen (.ofList (.replicate n '(')) = .ok () := by
    rw [Options.screen, if_neg (by simpa using hlength), String.toList_ofList, denied?_replicate]
  have hread : RuleConditions.tokenize (.ofList (.replicate n '(')) =
      .ok (.replicate n (.symbol (.opening .round))) := by
    rw [RuleConditions.tokenize, String.toList_ofList, tokensFrom_replicate]
  have hcheck : o.checkTokens (.replicate n (.symbol (.opening .round))) = .ok () := by
    rw [Options.checkTokens, if_neg (by simpa using hcount), hlegacy]
    rfl
  rw [Options.tokens, hscreen, hread]
  change (o.checkTokens _ >>= _) = _
  rw [hcheck]
  rfl

/-- **A text of too many opening brackets**, let through by the limits, ends in a fault. -/
theorem run_replicate_eq_throw (hlegacy : o.precedence = .legacy) (hlength : n ≤ o.maxLength)
    (hcount : n ≤ o.maxTokens) (hdepth : 0 < o.maxDepth) (hn : counterBound ≤ n)
    (bindings : Bindings) :
    run o bindings (n + 1) (.ofList (.replicate n '(')) 0 = throw (.brackets counterBound) := by
  have hlimit : 0 < (o.scope bindings).depthLimit := Nat.lt_min.mpr ⟨hdepth, by decide⟩
  have hevaluate := @evaluate_eq_throw n n 0 [] .round (o.scope bindings) hn hlimit
  rw [List.append_nil] at hevaluate
  rw [run_of_tokens bindings (by simp) (tokens_replicate hlegacy hlength hcount), hevaluate]

/-! ### All of a condition -/

/-- **What can go wrong on the machine.**  Every text is read and every list of tokens is tested
for pairing.  Every short list of tokens is evaluated, whatever stands in it, and so is every
condition, under any options, whose accepted tokens are a short list.  For other conditions a
counter of open brackets may overflow, and nothing else can happen.  No function is called with
fewer arguments than its body looks up.  One round for each character and one for the end are
enough, and so is one call within each other for each token and one. -/
theorem finishes_without_fault :
    (∀ text rounds, text.length < rounds →
      tokenize rounds text = pure (RuleConditions.tokenize text)) ∧
    (∀ ts, pairs [] ts = pure (bracketsPair ts)) ∧
    (∀ scope ts calls depth, ts.length < calls → ts.length < counterBound →
      depth ≤ scope.depthLimit →
      evaluate scope calls ts depth =
        pure ((RuleConditions.evaluate scope ts depth).outcome, depth)) ∧
    (∀ (o : Options) (bindings : Bindings) (text : String) (rounds : Nat), text.length < rounds →
      (∀ ts, o.tokens text = .ok ts → ts.length < counterBound) →
      run o bindings rounds text 0 = pure (o.valueOf bindings text, 0)) ∧
    (∀ (o : Options) (bindings : Bindings) (text : String) (rounds : Nat), text.length < rounds →
      run o bindings rounds text 0 = pure (o.valueOf bindings text, 0) ∨
        ∃ count, run o bindings rounds text 0 = throw (.brackets count)) ∧
    ∀ f ∈ functions, ∀ args, f.arity.allows args.length = true →
      ∃ x, f.body.run? args = some x ∧ bodyValue f.body args = pure x :=
  ⟨fun _ _ hrounds => tokenize_eq hrounds, pairs_eq [],
    fun scope ts _ _ hcalls hshort hdepth => (ends_evaluate scope ts hcalls hdepth).eq_pure hshort,
    fun o bindings _ _ hrounds hshort => (ends_run o bindings hrounds).eq_pure hshort,
    fun o bindings _ _ hrounds => (ends_run o bindings hrounds).pure_or_brackets,
    fun _ hf _ hallows => exists_bodyValue_eq hf hallows⟩

/-- Where brackets do not matter, what stands between two of them is cut out whatever it is.  A text
of one opening bracket is far from too long. -/
theorem finishes_without_fault_of_mismatch :
    evaluate ⟨.empty, .legacy, 64⟩ 5
        [.symbol (.opening .round), .symbol (.closing .square), .symbol (.opening .square),
          .symbol (.closing .round)] 0 =
      pure (.error (.invalidExpression
        (.slice [.symbol (.closing .square), .symbol (.opening .square)])), 0) ∧
    run ⟨1, 1, 64, 100, .legacy⟩ .empty 2 "(" 0 =
      pure (.error (.invalidExpression (.slice [.symbol (.opening .round)])), 0) := by
  obtain ⟨-, -, hevaluate, hrun, -⟩ := finishes_without_fault
  constructor
  · have houtcome := hevaluate ⟨.empty, .legacy, 64⟩
      [.symbol (.opening .round), .symbol (.closing .square), .symbol (.opening .square),
        .symbol (.closing .round)] 5 0 (by decide) (by decide) (by decide)
    have hinterior : (RuleConditions.evaluate ⟨.empty, .legacy, 64⟩
        [.symbol (.closing .square), .symbol (.opening .square)] 1).outcome =
        .error (.invalidExpression
          (.slice [.symbol (.closing .square), .symbol (.opening .square)])) := by
      rw [outcome_evaluate]
      rfl
    rw [houtcome, outcome_evaluate]
    exact congrArg (fun outcome => pure (outcome, 0)) hinterior
  · have htokens : Options.tokens ⟨1, 1, 64, 100, .legacy⟩ "(" =
        .ok [.symbol (.opening .round)] :=
      @tokens_replicate 1 _ rfl (Nat.le_refl 1) (Nat.le_refl 1)
    have hshort : ∀ ts, Options.tokens ⟨1, 1, 64, 100, .legacy⟩ "(" = .ok ts →
        ts.length < counterBound := by
      intro ts hts
      obtain rfl := Except.ok.inj (htokens.symm.trans hts)
      decide
    rw [hrun _ .empty "(" 2 (by decide) hshort, Options.valueOf, Options.run, htokens,
      outcome_evaluate]
    rfl

/-- So many opening brackets that their number does not fit the counter. -/
theorem run_eq_throw_of_counterBound :
    (String.ofList (.replicate counterBound '(')).length < counterBound + 1 ∧
    run ⟨counterBound, counterBound, 64, 100, .legacy⟩ .empty (counterBound + 1)
        (String.ofList (.replicate counterBound '(')) 0 =
      throw (.brackets counterBound) :=
  ⟨by simp, run_replicate_eq_throw rfl (Nat.le_refl _) (Nat.le_refl _) (by decide) (Nat.le_refl _)
    .empty⟩

end RuleConditions.Machine
