import RuleConditions.Judgement
import RuleConditions.Proofs.Lexemes
import RuleConditions.Proofs.Outcome

/-!
# Limits only refuse

A condition can be refused because its text is too long, because it has too many tokens or because
its evaluation goes too deep.  Nothing else depends on these limits: a condition that they let
through is judged in the same way under all wider ones, with the same value or the same error
(`valueOf_eq_of_within`).

The checks before evaluation come in a fixed order, and each passes on what it is given
(`Options.Within.tokens_eq`).  The depth is tested again and again, between other steps that may
fail first.  `Evaluation.Settles` relates two evaluations that have the same run wherever the first
is not too deep; it goes through every step, and a wider limit settles what a narrower one does
(`settles_evaluate`).
-/

namespace RuleConditions

open Evaluation

variable {α β : Type} {P : RuleError → Prop} {text : String} {ts : List Token}

/-! ### Wider limits -/

/-- The same precedence under limits of which none is narrower.  The length of an excerpt does not
matter. -/
structure Options.Within (o o' : Options) : Prop where
  maxLength : o.maxLength ≤ o'.maxLength
  maxTokens : o.maxTokens ≤ o'.maxTokens
  maxDepth : o.maxDepth ≤ o'.maxDepth
  precedence : o'.precedence = o.precedence

/-- Whether an error says that a limit is passed. -/
def RuleError.isLimit : RuleError → Bool
  | .tooLong .. | .tooComplex .. | .tooDeep _ => true
  | .denied _ | .invalidCharacter .. | .unterminatedString _ | .unknownVariable _
  | .unknownFunction _ | .notAnArray .. | .arity _ | .unbalanced | .invalidExpression _ => false

/-- The errors that are not about a limit. -/
def NoLimit (e : RuleError) : Prop := e.isLimit = false

/-! ### Before evaluation -/

/-- Two computations in a row, each replaced by one that does the same unless an error outside `P`
comes up. -/
theorem FailsOnly.bind_eq {x x' : Except RuleError α} {f f' : α → Except RuleError β}
    (h : FailsOnly P (x >>= f)) (hx : FailsOnly P x → x' = x)
    (hf : ∀ a, FailsOnly P (f a) → f' a = f a) : x' >>= f' = x >>= f := by
  cases x with
  | error e =>
    rw [hx fun e' he' => h e' (by rw [Except.error.inj he']; rfl)]
    rfl
  | ok a =>
    rw [hx (failsOnly_ok a)]
    exact hf a h

namespace Options.Within

variable {o o' : Options}

theorem screen_eq (h : o.Within o') (hscreen : FailsOnly NoLimit (o.screen text)) :
    o'.screen text = o.screen text := by
  have hlength := h.maxLength
  unfold screen at hscreen ⊢
  by_cases hlong : o.maxLength < text.length
  · rw [if_pos hlong] at hscreen
    exact absurd (hscreen _ rfl) (by simp [NoLimit, RuleError.isLimit])
  · rw [if_neg hlong, if_neg (by omega)]

theorem checkTokens_eq (h : o.Within o') (hcheck : FailsOnly NoLimit (o.checkTokens ts)) :
    o'.checkTokens ts = o.checkTokens ts := by
  have hcount := h.maxTokens
  unfold checkTokens at hcheck ⊢
  by_cases hmany : o.maxTokens < ts.length
  · rw [if_pos hmany] at hcheck
    exact absurd (hcheck _ rfl) (by simp [NoLimit, RuleError.isLimit])
  · rw [if_neg hmany, if_neg (by omega), h.precedence]

/-- **The checks before evaluation** come to the same, unless a limit is passed. -/
theorem tokens_eq (h : o.Within o') (htokens : FailsOnly NoLimit (o.tokens text)) :
    o'.tokens text = o.tokens text := by
  refine htokens.bind_eq (fun hscreen => h.screen_eq hscreen) fun _ hread => ?_
  refine hread.bind_eq (fun _ => rfl) fun ts hts => ?_
  exact hts.bind_eq (fun hcheck => h.checkTokens_eq hcheck) fun _ _ => rfl

end Options.Within

/-! ### Evaluation -/

namespace Evaluation

/-- Two evaluations with the same run from every depth where the first is not too deep. -/
def Settles (first second : Evaluation α) : Prop :=
  ∀ depth, FailsOnly NotTooDeep (first depth).outcome → second depth = first depth

theorem settles_self (e : Evaluation α) : Settles e e := fun _ _ => rfl

theorem settles_andThen {first first' : Evaluation α} {second second' : α → Evaluation β}
    (h : Settles first first') (h' : ∀ a, Settles (second a) (second' a)) :
    Settles (andThen first second) (andThen first' second') := by
  intro depth hsettled
  cases houtcome : (first depth).outcome with
  | error e =>
    -- the error of the first is the error of both
    rw [andThen_of_error houtcome] at hsettled ⊢
    have hfirst : first' depth = first depth := by
      apply h
      rw [houtcome]
      exact failsOnly_error (hsettled e rfl)
    have houtcome' : (first' depth).outcome = .error e := by rw [hfirst, houtcome]
    rw [andThen_of_error houtcome', hfirst]
  | ok a =>
    rw [andThen_of_ok houtcome] at hsettled ⊢
    have hfirst : first' depth = first depth := by
      apply h
      rw [houtcome]
      exact failsOnly_ok a
    have houtcome' : (first' depth).outcome = .ok a := by rw [hfirst, houtcome]
    rw [andThen_of_ok houtcome', hfirst, h' a (first depth).depth hsettled]

theorem congruence_settles : Congruence fun _ => Settles :=
  ⟨fun _ => settles_self _, fun _ => settles_self _, settles_andThen⟩

/-- A slice that may be entered may be entered under every higher limit. -/
theorem settles_nested {inside inside' : Evaluation α} (h : Settles inside inside')
    {limit limit' : Nat} (hlimit : limit ≤ limit') (slice : List Token) :
    Settles (nested limit slice inside) (nested limit' slice inside') := by
  intro depth hsettled
  unfold nested at hsettled ⊢
  by_cases hdeep : limit < depth + 1
  · rw [if_pos hdeep] at hsettled
    exact absurd rfl (hsettled _ rfl limit)
  · have hdeep' : ¬limit' < depth + 1 := by omega
    rw [if_neg hdeep] at hsettled ⊢
    rw [if_neg hdeep', h (depth + 1) hsettled]

end Evaluation

/-- **A wider limit settles what a narrower one does**: an evaluation that is not too deep has the
same run. -/
theorem settles_evaluate (bindings : Bindings) (p : Precedence) {maxDepth maxDepth' : Nat}
    (h : maxDepth ≤ maxDepth') (ts : List Token) :
    Settles (evaluate ⟨bindings, p, maxDepth⟩ ts) (evaluate ⟨bindings, p, maxDepth'⟩ ts) := by
  have hlimit : Scope.depthLimit ⟨bindings, p, maxDepth⟩ ≤
      Scope.depthLimit ⟨bindings, p, maxDepth'⟩ := by
    simp only [Scope.depthLimit]
    omega
  induction ts using Shape.induction p with
  | step ts ih =>
    rw [evaluate_eq, evaluate_eq]
    exact settles_nested (Shape.run_of_congruence congruence_settles bindings _ _ ih) hlimit ts

/-- A condition that no limit refuses has the same run, from its text to its value. -/
theorem Options.Within.run_eq {o o' : Options} (h : o.Within o') {bindings : Bindings}
    (hvalue : FailsOnly NoLimit (o.valueOf bindings text)) :
    o'.run bindings text = o.run bindings text := by
  unfold valueOf run at hvalue
  have hchecks : FailsOnly NoLimit (o.tokens text) := by
    intro e he
    rw [he] at hvalue
    exact hvalue e rfl
  unfold run
  rw [h.tokens_eq hchecks]
  cases htokens : o.tokens text with
  | error e => rfl
  | ok ts =>
    rw [htokens] at hvalue
    have hsettled : FailsOnly NotTooDeep (evaluate (o.scope bindings) ts 0).outcome := by
      rintro e he max rfl
      exact absurd (hvalue _ he) (by simp [NoLimit, RuleError.isLimit])
    have hscope : o'.scope bindings = ⟨bindings, o.precedence, o'.maxDepth⟩ := by
      rw [scope, h.precedence]
    rw [hscope]
    exact settles_evaluate bindings o.precedence h.maxDepth ts 0 hsettled

/-- **Limits only refuse**: under limits of which none is narrower, and the same precedence, a
condition that is not refused by a limit is judged in the same way.  It has the same value or the
same error, and it is split at the same operators. -/
theorem valueOf_eq_of_within (o o' : Options) (hwithin : o.Within o') (bindings : Bindings)
    (text : String) (h : ∀ e, o.valueOf bindings text = .error e → e.isLimit = false) :
    o'.valueOf bindings text = o.valueOf bindings text ∧
      (o'.run bindings text).splits = (o.run bindings text).splits := by
  have hrun := hwithin.run_eq h
  exact ⟨by rw [Options.valueOf, Options.valueOf, hrun], by rw [hrun]⟩

/-- The left operand is unbound, and behind it the right one would go too deep: the error on the
left is the first one under every limit. -/
theorem valueOf_eq_of_within_of_unbound :
    let o : Options := ⟨5, 5, 2, 0, .conventional⟩
    o.Within {} ∧ o.valueOf .empty "y+!!x" = .error (.unknownVariable "y") ∧
      ({} : Options).valueOf .empty "y+!!x" = o.valueOf .empty "y+!!x" := by
  intro o
  have hwithin : o.Within {} := ⟨by decide, by decide, by decide, rfl⟩
  let right : List Token := [.symbol .bang, .symbol .bang, .ident "x"]
  let ts : List Token := .ident "y" :: .symbol (.operator (.arithmetic .add)) :: right
  have hname : Lexeme.next 'y' "+!!x".toList = .ok (.token (.ident "y"), "+!!x".toList) := rfl
  have hplus : Lexeme.next '+' "!!x".toList =
      .ok (.token (.symbol (.operator (.arithmetic .add))), "!!x".toList) := rfl
  have hbang : Lexeme.next '!' "!x".toList = .ok (.token (.symbol .bang), "!x".toList) := rfl
  have hbang' : Lexeme.next '!' "x".toList = .ok (.token (.symbol .bang), "x".toList) := rfl
  have hlast : Lexeme.next 'x' [] = .ok (.token (.ident "x"), []) := rfl
  have htokens : tokenize "y+!!x" = .ok ts :=
    tokensFrom_cons hname (tokensFrom_cons hplus (tokensFrom_cons hbang
      (tokensFrom_cons hbang' (tokensFrom_cons hlast (tokensFrom_nil _)))))
  have hchecks : o.tokens "y+!!x" = .ok ts := by
    rw [Options.tokens, htokens]
    rfl
  have hread : Shape.read .conventional ts = .binary [.ident "y"] (.arithmetic .add) right := by
    decide
  have hleft : (evaluate (o.scope .empty) [.ident "y"] 1).outcome =
      .error (.unknownVariable "y") := by
    rw [outcome_evaluate]
    rfl
  have hvalue : o.valueOf .empty "y+!!x" = .error (.unknownVariable "y") := by
    have hrun : o.run .empty "y+!!x" = evaluate (o.scope .empty) ts 0 := by
      rw [Options.run, hchecks]
    have hscope : (o.scope .empty).precedence = .conventional := rfl
    rw [Options.valueOf, hrun, outcome_evaluate, hscope, hread, Shape.value, hleft]
    rfl
  have h : ∀ e, o.valueOf .empty "y+!!x" = .error e → e.isLimit = false := by
    intro e he
    rw [← Except.error.inj (hvalue.symm.trans he)]
    rfl
  exact ⟨hwithin, hvalue, (valueOf_eq_of_within o {} hwithin .empty "y+!!x" h).1⟩

end RuleConditions
