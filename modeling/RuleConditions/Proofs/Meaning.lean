import RuleConditions.Proofs.Expression
import RuleConditions.Proofs.Outcome

/-!
# What expressions mean

`Expr.denote` is the value of a tree, or the first error on the way to it: operands are evaluated
from left to right, all of them, and then the operator is applied.  The evaluator has no trees.
Under the conventional precedence it comes to the same on the slice of a tree, if there is as much
depth left as the tree is high (`outcome_evaluate_tokens`).

A numeral stands for the double nearest to `decimal`, its digits shifted by those behind the point.
That this is what is read is a fact about plain words only (`read?_eq_decimal`).
-/

namespace RuleConditions

/-! ### Numerals -/

/-- The number of a numeral: its digits as a whole number, shifted by the digits behind the point.
-/
def decimal (word : List Char) : Float :=
  Number.ofDecimal (Number.ofDigits (word.filter Char.isDigit))
    (-((word.dropWhile Char.isDigit).tail.length : Int))

section Numerals

open Number

variable {word whole fraction : List Char}

theorem splitSign_of_head? (h : ∀ c ∈ word.head?, c ≠ '-' ∧ c ≠ '+') :
    splitSign word = (false, word) := by
  unfold splitSign
  split
  · exact absurd rfl (h _ rfl).1
  · exact absurd rfl (h _ rfl).2
  · rfl

theorem spanDigits_append (h : ∀ c ∈ whole, c.isDigit = true) (rest : List Char)
    (hrest : rest.head?.any Char.isDigit = false) : spanDigits (whole ++ rest) = (whole, rest) := by
  have hstop : rest.takeWhile Char.isDigit = [] ∧ rest.dropWhile Char.isDigit = rest := by
    cases rest with
    | nil => exact ⟨rfl, rfl⟩
    | cons c rest =>
      have hc : c.isDigit = false := hrest
      rw [List.takeWhile_cons, List.dropWhile_cons, hc]
      exact ⟨rfl, rfl⟩
  rw [spanDigits, List.takeWhile_append_of_pos h, List.dropWhile_append_of_pos h, hstop.1, hstop.2,
    List.append_nil]

/-- A word of digits, whatever these are, with at most one point is digits alone, or digits on both
sides of the point. -/
theorem exists_whole {p : Char → Bool} (hplain : word.all fun c => p c || c == '.')
    (hdots : word.count '.' ≤ 1) :
    ∃ whole rest, word = whole ++ rest ∧ (∀ c ∈ whole, p c = true) ∧
      (rest = [] ∨ ∃ fraction, rest = '.' :: fraction ∧ ∀ c ∈ fraction, p c = true) := by
  rw [List.all_eq_true] at hplain
  have hword : word = word.takeWhile p ++ word.dropWhile p :=
    List.takeWhile_append_dropWhile.symm
  refine ⟨_, _, hword, List.all_eq_true.mp List.all_takeWhile, ?_⟩
  have hstop := List.head?_dropWhile_not p word
  cases hrest : word.dropWhile p with
  | nil => exact .inl rfl
  | cons c fraction =>
    rw [hrest] at hword hstop
    have hmem : ∀ d ∈ c :: fraction, p d = true ∨ d = '.' := by
      intro d hd
      have hd : d ∈ word := by
        rw [hword]
        exact List.mem_append_right _ hd
      simpa using hplain d hd
    obtain rfl : c = '.' := (hmem c (List.mem_cons_self ..)).resolve_left (by simpa using hstop)
    refine .inr ⟨fraction, rfl, fun d hd => ?_⟩
    -- a second point would be one too many
    have hcount : fraction.count '.' = 0 := by
      rw [hword, List.count_append, List.count_cons_self] at hdots
      omega
    refine (hmem d (List.mem_cons_of_mem _ hd)).resolve_right ?_
    rintro rfl
    exact List.count_eq_zero.mp hcount hd

/-- **A plain numeral is read as its digits say.** -/
theorem read?_eq_decimal (hplain : word.all fun c => c.isDigit || c == '.')
    (h : isNumeral word = true) : read? word = some (decimal word) := by
  unfold isNumeral at h
  simp only [Bool.and_eq_true, decide_eq_true_eq] at h
  obtain ⟨⟨-, hdigit⟩, hdots⟩ := h
  have hsign : splitSign word = (false, word) := by
    refine splitSign_of_head? fun c hc => ?_
    have := List.all_eq_true.mp hplain c (List.mem_of_mem_head? hc)
    constructor <;> rintro rfl <;> exact absurd this (by decide)
  obtain ⟨whole, rest, rfl, hwhole, hrest⟩ := exists_whole hplain hdots
  have hfilter := List.filter_eq_self.mpr hwhole
  obtain rfl | ⟨fraction, rfl, hfraction⟩ := hrest
  · have hspan := spanDigits_append hwhole [] rfl
    rw [List.append_nil] at hspan hsign hdigit ⊢
    have hdrop : whole.dropWhile Char.isDigit = [] := congrArg Prod.snd hspan
    have hne : whole ≠ [] := by
      rintro rfl
      exact absurd hdigit (by decide)
    simp [read?, hsign, readDecimal?, hspan, hne, decimal, hfilter, hdrop]
  · have hspan := spanDigits_append hwhole ('.' :: fraction) rfl
    have hdrop : (whole ++ '.' :: fraction).dropWhile Char.isDigit = '.' :: fraction :=
      congrArg Prod.snd hspan
    have hspan' := spanDigits_append hfraction [] rfl
    have hfilter' := List.filter_eq_self.mpr hfraction
    have hne : (whole.isEmpty && fraction.isEmpty) = false := by
      refine Bool.eq_false_iff.mpr fun hempty => ?_
      rw [Bool.and_eq_true, List.isEmpty_iff, List.isEmpty_iff] at hempty
      obtain ⟨rfl, rfl⟩ := hempty
      exact absurd hdigit (by decide)
    have hdot : ('.' :: fraction).filter Char.isDigit = fraction := by
      rw [List.filter_cons_of_neg (by decide), hfilter']
    rw [List.append_nil] at hspan'
    simp [read?, hsign, readDecimal?, hspan, hspan', hne, decimal, hfilter, hdot, hdrop]

end Numerals

/-! ### Denotations -/

mutual

/-- The value of an operand. -/
def Operand.denote (bindings : Bindings) : Operand → Except RuleError Value
  | .number word _ =>
    if isNumeral word.toList then .ok (.number (decimal word.toList)) else valueOfName bindings word
  | .name name => valueOfName bindings name
  | .text contents => .ok (.string contents)
  | .group inner => inner.denote bindings
  | .call function args => do
    let f ← functionOfName function
    let xs ← Expr.denoteAll bindings args
    valueOfCall f xs
  | .index array position => do
    let items ← itemsOfName bindings array
    let value ← position.denote bindings
    return itemAt items value.toNumber
  | .not operand => do return .bool !(← operand.denote bindings).truthy
  | .negative operand => do return .number (-(← operand.denote bindings).toNumber)

/-- The value of an expression. -/
def Expr.denote (bindings : Bindings) : {k : Nat} → Expr k → Except RuleError Value
  | _, .operand o => o.denote bindings
  | _, .binary op _ left right => do
    let a ← left.denote bindings
    let b ← right.denote bindings
    return op.apply a b

/-- The numbers of several expressions, from left to right. -/
def Expr.denoteAll (bindings : Bindings) : List (Expr 0) → Except RuleError (List Float)
  | [] => .ok []
  | e :: es => do
    let value ← e.denote bindings
    let xs ← Expr.denoteAll bindings es
    return value.toNumber :: xs

end

/-! ### Evaluation computes the denotation -/

theorem Operand.height_pos (o : Operand) : 0 < o.height := by
  cases o <;> rw [height] <;> omega

theorem Expr.height_pos {k : Nat} (e : Expr k) : 0 < e.height := by
  match e with
  | .operand o => exact o.height_pos
  | .binary op tight left right =>
    rw [height]
    omega

/-- The value of a word is that of its numeral, if it is one. -/
theorem valueOfToken_number {word : String} (bindings : Bindings)
    (hplain : word.toList.all fun c => c.isDigit || c == '.') :
    valueOfToken bindings (.number word) =
      if isNumeral word.toList then .ok (.number (decimal word.toList))
      else valueOfName bindings word := by
  rw [valueOfToken]
  split
  · rename_i hnumeral
    rw [read?_eq_decimal hplain hnumeral]
  · rfl

variable {scope : Scope} {depth : Nat}

/-- An operand is evaluated by the rule for its shape. -/
theorem Operand.outcome_evaluate (o : Operand) (hp : scope.precedence = .conventional)
    (hdepth : depth + o.height ≤ scope.depthLimit) :
    (evaluate scope o.tokens depth).outcome =
      o.shape.value scope.bindings fun part => (evaluate scope part (depth + 1)).outcome := by
  have := o.height_pos
  rw [RuleConditions.outcome_evaluate, if_neg (by omega), hp, o.read_tokens]

/-- An expression with an operator at the root is evaluated by the rule for the operator. -/
theorem Expr.outcome_evaluate_binary (op : Operator) (left : Expr op.rank)
    (right : Expr (op.rank + 1)) (hp : scope.precedence = .conventional)
    (hdepth : depth < scope.depthLimit) :
    (evaluate scope (left.tokens ++ .symbol (.operator op) :: right.tokens) depth).outcome = do
      let a ← (evaluate scope left.tokens (depth + 1)).outcome
      let b ← (evaluate scope right.tokens (depth + 1)).outcome
      return op.apply a b := by
  have hroot := find?_binary op left right
  rw [outcome_evaluate, if_neg (by omega), hp, Shape.read_of_find?_eq_some hroot]
  rfl

mutual

theorem Operand.outcome_eq_denote (hp : scope.precedence = .conventional) :
    (o : Operand) → (depth : Nat) → depth + o.height ≤ scope.depthLimit →
      (evaluate scope o.tokens depth).outcome = o.denote scope.bindings
  | .number word hplain, depth, hdepth => by
    rw [Operand.outcome_evaluate _ hp hdepth, Operand.shape, Shape.value, Operand.denote]
    exact valueOfToken_number scope.bindings hplain
  | .name name, depth, hdepth => by
    rw [Operand.outcome_evaluate _ hp hdepth, Operand.shape, Shape.value, Operand.denote]
    rfl
  | .text contents, depth, hdepth => by
    rw [Operand.outcome_evaluate _ hp hdepth, Operand.shape, Shape.value, Operand.denote]
    rfl
  | .group inner, depth, hdepth => by
    rw [Operand.outcome_evaluate _ hp hdepth, Operand.shape, Shape.value, Operand.denote]
    rw [Operand.height] at hdepth
    exact inner.outcome_eq_denote hp (depth + 1) (by omega)
  | .call function args, depth, hdepth => by
    rw [Operand.outcome_evaluate _ hp hdepth, Operand.shape, Shape.value, Operand.denote]
    rw [Operand.height] at hdepth
    rw [Derives.arguments_commaSeparated (Expr.derives_tokensAll args)]
    rw [Expr.outcomes_eq_denoteAll hp args (depth + 1) (by omega)]
  | .index array position, depth, hdepth => by
    rw [Operand.outcome_evaluate _ hp hdepth, Operand.shape, Shape.value, Operand.denote]
    rw [Operand.height] at hdepth
    rw [position.outcome_eq_denote hp (depth + 1) (by omega)]
  | .not operand, depth, hdepth => by
    rw [Operand.outcome_evaluate _ hp hdepth, Operand.shape, Shape.value, Operand.denote]
    rw [Operand.height] at hdepth
    rw [operand.outcome_eq_denote hp (depth + 1) (by omega)]
  | .negative operand, depth, hdepth => by
    rw [Operand.outcome_evaluate _ hp hdepth, Operand.shape, Shape.value, Operand.denote]
    rw [Operand.height] at hdepth
    rw [operand.outcome_eq_denote hp (depth + 1) (by omega)]

theorem Expr.outcome_eq_denote (hp : scope.precedence = .conventional) :
    {k : Nat} → (e : Expr k) → (depth : Nat) → depth + e.height ≤ scope.depthLimit →
      (evaluate scope e.tokens depth).outcome = e.denote scope.bindings
  | _, .operand o, depth, hdepth => by
    rw [Expr.height] at hdepth
    rw [Expr.tokens, Expr.denote]
    exact o.outcome_eq_denote hp depth hdepth
  | _, .binary op _ left right, depth, hdepth => by
    rw [Expr.height] at hdepth
    rw [Expr.tokens, Expr.denote, Expr.outcome_evaluate_binary op left right hp (by omega)]
    rw [left.outcome_eq_denote hp (depth + 1) (by omega)]
    rw [right.outcome_eq_denote hp (depth + 1) (by omega)]

/-- The arguments of a call are evaluated at one depth, each to its number. -/
theorem Expr.outcomes_eq_denoteAll (hp : scope.precedence = .conventional) :
    (es : List (Expr 0)) → (depth : Nat) → depth + Expr.heightAll es ≤ scope.depthLimit →
      ((Expr.tokensAll es).mapM fun ts => do
        return (← (evaluate scope ts depth).outcome).toNumber) = Expr.denoteAll scope.bindings es
  | [], _, _ => rfl
  | e :: es, depth, hdepth => by
    rw [Expr.heightAll] at hdepth
    rw [Expr.tokensAll, List.mapM_cons, Expr.denoteAll, e.outcome_eq_denote hp depth (by omega)]
    rw [Expr.outcomes_eq_denoteAll hp es depth (by omega)]
    cases e.denote scope.bindings <;> rfl

end

/-- **Evaluation computes what expressions mean**: under the conventional precedence the slice of a
tree has the value that the tree denotes, or fails with the error that it denotes, if there is as
much depth left as the tree is high. -/
theorem outcome_evaluate_tokens (bindings : Bindings) (maxDepth : Nat) {k : Nat} (e : Expr k)
    (depth : Nat) (h : depth + e.height ≤ min maxDepth depthCeiling) :
    (evaluate ⟨bindings, .conventional, maxDepth⟩ e.tokens depth).outcome = e.denote bindings := by
  have hlimit : depth + e.height ≤ (Scope.mk bindings .conventional maxDepth).depthLimit := h
  exact e.outcome_eq_denote rfl depth hlimit

/-- `true || false && !true` is true, which it would not be if `||` bound more tightly. -/
theorem outcome_evaluate_tokens_of_or :
    let e : Expr 0 := .binary (.logical .or) (by decide) (.operand (.name "true"))
      (.binary (.logical .and) (by decide) (.operand (.name "false"))
        (.operand (.not (.name "true"))))
    0 + e.height ≤ min 64 depthCeiling ∧
      (evaluate ⟨.empty, .conventional, 64⟩
        [.ident "true", .symbol (.operator (.logical .or)), .ident "false",
          .symbol (.operator (.logical .and)), .symbol .bang, .ident "true"] 0).outcome =
        .ok (.bool true) := by
  intro e
  have hheight : 0 + e.height ≤ min 64 depthCeiling := by decide
  exact ⟨hheight, outcome_evaluate_tokens .empty 64 e 0 hheight⟩

end RuleConditions
