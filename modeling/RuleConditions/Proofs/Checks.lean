import RuleConditions.Judgement
import RuleConditions.Proofs.Acceptance
import RuleConditions.Proofs.Causes
import RuleConditions.Proofs.Lexemes

/-!
# Checking and judging agree

`Options.check` tests all of a condition that does not depend on bindings, and judging starts with
the same tests.  So what the check refuses is refused for the same reason whatever is bound, and
what passes it fails, if at all, for a reason that lies in the bindings, the depth or the form of
the expression (`check_agrees_with_valueOf`).  The two sorts of reasons are told apart by
`RuleError.isOfText`: the tests before evaluation give only the first (`failsOnly_tokens`), and
evaluation only the second, since an error of it is true of the tokens (`RuleError.TrueOf`).

One of the tests is not needed for safety.  Evaluation counts open brackets without telling their
kinds apart, but what has a value is derived by the grammar, so its brackets pair; without the test
for pairing the same conditions have values (`valueTested_checkCount_eq_ok_iff`).
-/

namespace RuleConditions

variable {o : Options} {bindings : Bindings} {text : String} {ts : List Token} {v : Value}

/-! ### Two sorts of errors -/

/-- Whether an error is one of a text by itself, found before anything is evaluated. -/
def RuleError.isOfText : RuleError → Bool
  | .tooLong .. | .denied _ | .invalidCharacter .. | .unterminatedString _ | .tooComplex ..
  | .unbalanced => true
  | .tooDeep _ | .unknownVariable _ | .unknownFunction _ | .notAnArray .. | .arity _
  | .invalidExpression _ => false

/-- What is true of tokens is not an error of the text. -/
theorem RuleError.TrueOf.isOfText_eq_false {scope : Scope} {depth : Nat} {e : RuleError}
    (h : e.TrueOf scope depth ts) : e.isOfText = false := by
  cases e with
  | tooLong | denied | invalidCharacter | unterminatedString | tooComplex | unbalanced =>
    exact absurd h id
  | _ => rfl

/-! ### The tests before evaluation -/

theorem failsOnly_tokensFrom (position : Nat) (cs : List Char) :
    FailsOnly (·.isOfText = true) (tokensFrom position cs) := by
  fun_induction tokensFrom position cs with
  | case1 => exact failsOnly_ok []
  | case2 position c cs fault _ => cases fault <;> exact failsOnly_error rfl
  | case3 position c cs lexeme rest _ e herror ih => exact failsOnly_error (ih e herror)
  | case4 position c cs lexeme rest _ ts _ _ => exact failsOnly_ok _

namespace Options

theorem failsOnly_screen (o : Options) (text : String) :
    FailsOnly (·.isOfText = true) (o.screen text) := by
  unfold screen
  split
  · exact failsOnly_error rfl
  · split
    · exact failsOnly_error rfl
    · exact failsOnly_ok ()

theorem failsOnly_checkTokens (o : Options) (ts : List Token) :
    FailsOnly (·.isOfText = true) (o.checkTokens ts) := by
  unfold checkTokens
  split
  · exact failsOnly_error rfl
  · split
    · unfold checkPairing
      split
      · exact failsOnly_ok ()
      · exact failsOnly_error rfl
    · exact failsOnly_ok ()

/-- **The tests before evaluation** give errors of the text only. -/
theorem failsOnly_tokens (o : Options) (text : String) :
    FailsOnly (·.isOfText = true) (o.tokens text) := by
  refine (o.failsOnly_screen text).bind fun _ _ => ?_
  refine (failsOnly_tokensFrom 0 text.toList).bind fun ts _ => ?_
  exact (o.failsOnly_checkTokens ts).bind fun _ _ => failsOnly_ok ts

theorem tokens_eq_error_iff {e : RuleError} :
    o.tokens text = .error e ↔ o.check text = .error e := by
  unfold check
  cases o.tokens text <;> simp [Except.map]

/-- **What is refused is refused** whatever is bound. -/
theorem valueOf_of_check_eq_error {e : RuleError} (h : o.check text = .error e)
    (bindings : Bindings) : o.valueOf bindings text = .error e := by
  rw [valueOf, run, tokens_eq_error_iff.mpr h]

/-- **What is not refused** fails for another reason, if it does. -/
theorem failsOnly_valueOf (h : o.check text = .ok ()) (bindings : Bindings) :
    FailsOnly (·.isOfText = false) (o.valueOf bindings text) := by
  unfold valueOf run
  cases htokens : o.tokens text with
  | error e => exact absurd ((tokens_eq_error_iff.mp htokens).symm.trans h) (by simp)
  | ok ts =>
    exact (failsOnly_trueOf (o.scope bindings) ts 0).imp fun _ he => he.isOfText_eq_false

/-! ### Without the test for pairing -/

/-- Refuses too many tokens. -/
def checkCount (o : Options) (ts : List Token) : Except RuleError Unit :=
  if o.maxTokens < ts.length then .error (.tooComplex ts.length o.maxTokens) else .ok ()

/-- The value of a condition whose tokens are tested by `test` before they are evaluated. -/
def valueTested (o : Options) (test : List Token → Except RuleError Unit) (bindings : Bindings)
    (text : String) : Except RuleError Value := do
  o.screen text
  let ts ← tokenize text
  test ts
  (evaluate (o.scope bindings) ts 0).outcome

theorem valueOf_eq (o : Options) (bindings : Bindings) (text : String) :
    o.valueOf bindings text = o.valueTested o.checkTokens bindings text := by
  unfold valueOf run tokens valueTested
  cases o.screen text with
  | error e => rfl
  | ok _ =>
    cases tokenize text with
    | error e => rfl
    | ok ts =>
      simp only [bind, Except.bind]
      cases o.checkTokens ts <;> rfl

theorem checkTokens_of_bracketsPair (h : bracketsPair ts) : o.checkTokens ts = o.checkCount ts := by
  simp [checkTokens, checkCount, checkPairing, h]

/-- **Without the test for pairing** the same conditions have values. -/
theorem valueTested_checkCount_eq_ok_iff :
    o.valueTested o.checkCount bindings text = .ok v ↔ o.valueOf bindings text = .ok v := by
  simp only [valueOf_eq, valueTested, bind_eq_ok_iff]
  refine exists_congr fun _ => and_congr_right fun _ => ?_
  refine exists_congr fun ts => and_congr_right fun _ => ?_
  refine exists_congr fun _ => and_congr_left fun hv => ?_
  -- the brackets of what has a value pair, though evaluation does not compare their kinds
  rw [checkTokens_of_bracketsPair (accepted_of_ok _ hv).derives.bracketsPair]

end Options

/-- **Checking and judging agree.**  What the check refuses, for a reason that lies in the text, is
refused for that reason whatever is bound, and does not hold; what passes the check fails, if at
all, for no such reason.  And whether brackets are tested for pairing makes no difference to what
has which value. -/
theorem check_agrees_with_valueOf (o : Options) (text : String) :
    (∀ e, o.check text = .error e → e.isOfText = true ∧
      ∀ bindings, o.valueOf bindings text = .error e ∧ (o.judge bindings text).holds = false) ∧
    (o.check text = .ok () →
      ∀ bindings e, o.valueOf bindings text = .error e → e.isOfText = false) ∧
    ∀ bindings v,
      o.valueTested o.checkCount bindings text = .ok v ↔ o.valueOf bindings text = .ok v := by
  refine ⟨fun e he => ⟨?_, fun bindings => ?_⟩, fun hok bindings => ?_, fun bindings v => ?_⟩
  · exact o.failsOnly_tokens text e (Options.tokens_eq_error_iff.mpr he)
  · have hvalue := Options.valueOf_of_check_eq_error he bindings
    exact ⟨hvalue, by rw [Options.judge, hvalue]⟩
  · exact Options.failsOnly_valueOf hok bindings
  · exact Options.valueTested_checkCount_eq_ok_iff

/-- Counted without their kinds the outer brackets are partners, but the inner ones do not pair; a
lone name passes the check and is unbound. -/
theorem check_agrees_with_valueOf_of_mismatch :
    let o : Options := {}
    (o.check "((x])" = .error .unbalanced ∧
      ∀ bindings, o.valueOf bindings "((x])" = .error .unbalanced ∧
        (o.judge bindings "((x])").holds = false ∧
        ∀ v, o.valueTested o.checkCount bindings "((x])" ≠ .ok v) ∧
    o.check "x" = .ok () ∧ o.valueOf .empty "x" = .error (.unknownVariable "x") ∧
      (RuleError.unknownVariable "x").isOfText = false := by
  intro o
  have hopen : Lexeme.next '(' "(x])".toList =
      .ok (.token (.symbol (.opening .round)), "(x])".toList) := rfl
  have hopen' : Lexeme.next '(' "x])".toList =
      .ok (.token (.symbol (.opening .round)), "x])".toList) := rfl
  have hname : Lexeme.next 'x' "])".toList = .ok (.token (.ident "x"), "])".toList) := rfl
  have hclose : Lexeme.next ']' ")".toList =
      .ok (.token (.symbol (.closing .square)), ")".toList) := rfl
  have hclose' : Lexeme.next ')' [] = .ok (.token (.symbol (.closing .round)), []) := rfl
  have htokens : tokenize "((x])" = .ok [.symbol (.opening .round), .symbol (.opening .round),
      .ident "x", .symbol (.closing .square), .symbol (.closing .round)] :=
    tokensFrom_cons hopen (tokensFrom_cons hopen' (tokensFrom_cons hname
      (tokensFrom_cons hclose (tokensFrom_cons hclose' (tokensFrom_nil _)))))
  have hrefused : o.check "((x])" = .error .unbalanced := by
    rw [Options.check, Options.tokens, htokens]
    rfl
  have hlone : Lexeme.next 'x' [] = .ok (.token (.ident "x"), []) := rfl
  have hname' : tokenize "x" = .ok [.ident "x"] := tokensFrom_cons hlone (tokensFrom_nil _)
  have hpassed : o.check "x" = .ok () := by
    rw [Options.check, Options.tokens, hname']
    rfl
  have hunbound : o.valueOf .empty "x" = .error (.unknownVariable "x") := by
    have hrun : o.tokens "x" = .ok [.ident "x"] := by
      rw [Options.tokens, hname']
      rfl
    have hvalue : (evaluate (o.scope .empty) [.ident "x"] 0).outcome =
        .error (.unknownVariable "x") := by
      rw [outcome_evaluate]
      rfl
    rw [Options.valueOf, Options.run, hrun]
    exact hvalue
  obtain ⟨hfail, -, hpair⟩ := check_agrees_with_valueOf o "((x])"
  refine ⟨⟨hrefused, fun bindings => ?_⟩, hpassed, hunbound, ?_⟩
  · obtain ⟨hvalue, hholds⟩ := (hfail _ hrefused).2 bindings
    refine ⟨hvalue, hholds, fun v hv => ?_⟩
    exact absurd (hvalue.symm.trans ((hpair bindings v).mp hv)) (by simp)
  · exact (check_agrees_with_valueOf o "x").2.1 hpassed .empty _ hunbound

end RuleConditions
