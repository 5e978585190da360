import RuleConditions.Proofs.Neighbours
import RuleConditions.Proofs.Pairing

/-!
# Arguments and commas

`arguments` cuts what stands between the brackets of a call at the commas outside brackets, and
`commaSeparated` puts commas between the arguments again.  No token is lost on the way
(`commaSeparated_arguments`), and arguments whose own commas all stand inside brackets are found
again (`arguments_commaSeparated`).

What is outside brackets can be told in two ways.  `CommasInside` asks for two brackets that are
partners around each comma; the scan for commas counts open brackets, and finds those of `CommaFree`
tokens to be none.  On paired tokens the first is enough for the second (`CommasInside.commaFree`).
-/

namespace RuleConditions

variable {t : Token} {ts xs ys rest interior : List Token} {k : Int}

/-- The arguments of a call with a comma between each two. -/
def commaSeparated (args : List (List Token)) : List Token := [Token.symbol .comma].intercalate args

@[simp]
theorem commaSeparated_nil : commaSeparated [] = [] := rfl

@[simp]
theorem commaSeparated_singleton (arg : List Token) : commaSeparated [arg] = arg := by
  simp [commaSeparated, List.intercalate]

@[simp]
theorem commaSeparated_cons_cons (arg other : List Token) (args : List (List Token)) :
    commaSeparated (arg :: other :: args) =
      arg ++ .symbol .comma :: commaSeparated (other :: args) := by
  simp [commaSeparated, List.intercalate]

theorem commaSeparated_cons_cons_head (t : Token) (arg : List Token) (args : List (List Token)) :
    commaSeparated ((t :: arg) :: args) = t :: commaSeparated (arg :: args) := by
  cases args <;> simp

/-! ### Nothing is lost -/

theorem commaSeparated_splitCommas (k : Int) (ts : List Token) :
    commaSeparated ((splitCommas k ts).1 :: (splitCommas k ts).2) = ts := by
  induction ts generalizing k with
  | nil => rfl
  | cons t ts ih =>
    rw [splitCommas]
    split
    · rename_i hcomma
      rw [commaSeparated_cons_cons, ih, hcomma.1, List.nil_append]
    · rw [commaSeparated_cons_cons_head, ih]

/-- **The arguments with commas between them are what stood between the brackets.** -/
theorem commaSeparated_arguments (ts : List Token) : commaSeparated (arguments ts) = ts := by
  cases ts with
  | nil => rfl
  | cons t ts => exact commaSeparated_splitCommas 0 (t :: ts)

/-- Each argument stands at the start or behind a comma, and at the end or in front of one. -/
theorem exists_append_of_mem {args : List (List Token)} {arg : List Token} (h : arg ∈ args) :
    ∃ front back, commaSeparated args = front ++ arg ++ back ∧
      front.getLast?.any Token.endsOperand = false ∧
      (back = [] ∨ back.head? = some (.symbol .comma)) := by
  obtain ⟨before, after, rfl⟩ := List.append_of_mem h
  obtain ⟨front, back, hargs, hfront, hback, -⟩ :=
    exists_intercalate_eq (Token.symbol .comma) before arg after
  refine ⟨front, back, hargs, ?_, ?_⟩
  · cases hlast : front.getLast? with
    | none => rfl
    | some t => rw [hfront t hlast]; rfl
  · cases back with
    | nil => exact .inl rfl
    | cons t back => rw [hback t rfl]; exact .inr rfl

/-! ### Commas outside brackets -/

/-- Tokens with no comma outside brackets. -/
def CommaFree (ts : List Token) : Prop :=
  ∀ before after, ts = before ++ .symbol .comma :: after → nesting before ≠ 0

theorem commaFree_singleton (ht : t ≠ .symbol .comma) : CommaFree [t] := by
  intro before after h
  cases before with
  | nil =>
    rw [List.nil_append, List.cons.injEq] at h
    exact absurd h.1 ht
  | cons u before => exact absurd h (by simp)

/-- Every comma stands between two brackets that are partners. -/
def CommasInside (ts : List Token) : Prop :=
  ∀ before after, ts = before ++ .symbol .comma :: after →
    ∃ (outer : List Token) (b : Bracket) (inner more rest : List Token),
      before = outer ++ .symbol (.opening b) :: inner ∧
      after = more ++ .symbol (.closing b) :: rest ∧
      bracketsPair (inner ++ .symbol .comma :: more)

/-- Between two brackets that are partners at least one bracket is open. -/
theorem CommasInside.commaFree (h : CommasInside ts) (hpair : bracketsPair ts) : CommaFree ts := by
  intro before after hts
  obtain ⟨outer, b, inner, more, rest, rfl, -, hinner⟩ := h before after hts
  rw [hts, List.append_assoc] at hpair
  have hpos := @nesting_opening_pos outer inner b (nesting_nonneg hpair) (nesting_nonneg hinner)
  exact Int.ne_of_gt hpos

theorem commaFree_append (hnesting : nesting xs = 0) (hx : CommaFree xs) (hy : CommaFree ys) :
    CommaFree (xs ++ ys) := by
  intro before after h
  obtain ⟨mid, rfl, hmid⟩ | ⟨mid, hxs, hmid⟩ := List.append_eq_append_iff.mp h
  · -- the comma stands in the second list
    rw [nesting_append, hnesting, Int.zero_add]
    exact hy mid after hmid
  · cases mid with
    | nil =>
      -- the comma is the first token of the second list, with no bracket open before it
      rw [List.append_nil] at hxs
      subst hxs
      exact absurd rfl (hy [] after hmid.symm)
    | cons u mid =>
      rw [List.cons_append, List.cons.injEq] at hmid
      rw [← hmid.1] at hxs
      exact hx before mid hxs

theorem commaFree_cons (ht : t ≠ .symbol .comma) (hchange : t.nestingChange = 0)
    (h : CommaFree ts) : CommaFree (t :: ts) := by
  have hone : nesting [t] = 0 := by simp [hchange]
  exact commaFree_append hone (commaFree_singleton ht) h

/-- Every comma between two brackets is inside brackets. -/
theorem commaFree_enclose (b : Bracket) (h : bracketsPair interior) :
    CommaFree (.symbol (.opening b) :: (interior ++ [.symbol (.closing b)])) := by
  intro before after hbefore
  cases before with
  | nil => exact absurd hbefore (by simp)
  | cons u before =>
    rw [List.cons_append, List.cons.injEq] at hbefore
    obtain ⟨rfl, hbefore⟩ := hbefore
    rw [nesting_cons, Token.nestingChange_opening]
    obtain ⟨mid, rfl, hmid⟩ | ⟨mid, rfl, -⟩ := List.append_eq_append_iff.mp hbefore
    · -- behind the interior there is only the closing bracket
      cases mid <;> exact absurd hmid (by simp)
    · have := nesting_nonneg h
      omega

/-! ### Arguments are found again -/

/-- Tokens with no comma at level zero belong to the first group. -/
theorem splitCommas_append
    (h : ∀ before after, xs = before ++ .symbol .comma :: after → k + nesting before ≠ 0) :
    splitCommas k (xs ++ rest) =
      (xs ++ (splitCommas (k + nesting xs) rest).1, (splitCommas (k + nesting xs) rest).2) := by
  induction xs generalizing k with
  | nil => simp
  | cons t xs ih =>
    have hrest := ih (k := k + t.nestingChange) fun before after hxs => by
      have := h (t :: before) after (by rw [hxs, List.cons_append])
      rwa [nesting_cons, ← Int.add_assoc] at this
    -- a comma here would be one outside brackets
    have ht : ¬(t = .symbol .comma ∧ k = 0) := fun ⟨ht, hk⟩ =>
      h [] xs (by rw [ht, List.nil_append]) (by rw [hk, nesting_nil]; rfl)
    rw [List.cons_append, splitCommas, hrest, if_neg ht, nesting_cons, ← Int.add_assoc,
      List.cons_append]

theorem splitCommas_of_commaFree (hpair : bracketsPair xs) (hfree : CommaFree xs) :
    splitCommas 0 (xs ++ rest) = (xs ++ (splitCommas 0 rest).1, (splitCommas 0 rest).2) := by
  have houtside : ∀ before after, xs = before ++ .symbol .comma :: after →
      0 + nesting before ≠ 0 := by
    intro before after h
    rw [Int.zero_add]
    exact hfree before after h
  rw [splitCommas_append houtside, nesting_of_bracketsPair hpair, Int.add_zero]

theorem splitCommas_commaSeparated (arg : List Token) (args : List (List Token))
    (h : ∀ x ∈ arg :: args, bracketsPair x ∧ CommaFree x) :
    splitCommas 0 (commaSeparated (arg :: args)) = (arg, args) := by
  induction args generalizing arg with
  | nil =>
    obtain ⟨hpair, hfree⟩ := h arg (List.mem_cons_self ..)
    have := @splitCommas_of_commaFree arg [] hpair hfree
    simpa [splitCommas] using this
  | cons other args ih =>
    obtain ⟨hpair, hfree⟩ := h arg (List.mem_cons_self ..)
    have hrest := ih other fun x hx => h x (List.mem_cons_of_mem _ hx)
    rw [commaSeparated_cons_cons, splitCommas_of_commaFree hpair hfree]
    simp [splitCommas, Token.nestingChange, hrest]

/-- **Arguments are found again** if each is paired and keeps its commas inside brackets.  Only a
lone empty argument is lost: it is written as no argument at all. -/
theorem arguments_commaSeparated {args : List (List Token)} (hargs : args ≠ [[]])
    (h : ∀ x ∈ args, bracketsPair x ∧ CommaFree x) : arguments (commaSeparated args) = args := by
  cases args with
  | nil => rfl
  | cons arg args =>
    have hsplit := splitCommas_commaSeparated arg args h
    cases hts : commaSeparated (arg :: args) with
    | nil =>
      -- only a lone empty argument is written as nothing
      rw [hts] at hsplit
      simp only [splitCommas, Prod.mk.injEq] at hsplit
      rw [← hsplit.1, ← hsplit.2] at hargs
      exact absurd rfl hargs
    | cons t ts =>
      rw [hts] at hsplit
      rw [arguments, hsplit]

theorem bracketsPair_commaSeparated {args : List (List Token)} (h : ∀ x ∈ args, bracketsPair x) :
    bracketsPair (commaSeparated args) := by
  induction args with
  | nil => rfl
  | cons arg args ih =>
    have harg := h arg (List.mem_cons_self ..)
    have hargs := ih fun x hx => h x (List.mem_cons_of_mem _ hx)
    cases args with
    | nil => rwa [commaSeparated_singleton]
    | cons other args =>
      rw [commaSeparated_cons_cons]
      exact bracketsPair_append harg (bracketsPair_cons rfl hargs)

/-! ### Cutting and joining -/

/-- There is no argument only where there is no token. -/
theorem arguments_eq_nil_iff : arguments ts = [] ↔ ts = [] := by
  cases ts <;> simp [arguments]

/-- **Cutting at commas is the inverse of joining with commas.**  Whatever the tokens are, joined
again they are as before; and paired arguments with all their commas inside brackets are cut out
again, empty ones included, unless a lone one is empty. -/
theorem arguments_and_commaSeparated :
    (∀ ts, commaSeparated (arguments ts) = ts ∧ (arguments ts = [] ↔ ts = [])) ∧
    ∀ args, args ≠ [[]] → (∀ arg ∈ args, bracketsPair arg ∧ CommasInside arg) →
      arguments (commaSeparated args) = args :=
  ⟨fun ts => ⟨commaSeparated_arguments ts, arguments_eq_nil_iff⟩,
    fun _ hne h => arguments_commaSeparated hne fun arg harg =>
      ⟨(h arg harg).1, (h arg harg).2.commaFree (h arg harg).1⟩⟩

/-- The tokens `, f(a, b),` are three arguments, of which the first and the last are empty. -/
theorem arguments_and_commaSeparated_of_empty :
    let call : List Token := [.ident "f", .symbol (.opening .round), .ident "a", .symbol .comma,
      .ident "b", .symbol (.closing .round)]
    [[], call, []] ≠ [[]] ∧ (∀ arg ∈ [[], call, []], bracketsPair arg ∧ CommasInside arg) ∧
      arguments (.symbol .comma :: (call ++ [.symbol .comma])) = [[], call, []] := by
  intro call
  have hne : [[], call, []] ≠ [[]] := by simp
  have hnil : bracketsPair [] ∧ CommasInside [] := ⟨rfl, fun before after h => by simp at h⟩
  have hcall : bracketsPair call ∧ CommasInside call := by
    refine ⟨rfl, fun before after h => ?_⟩
    simp only [call, List.cons_eq_append_iff, List.cons.injEq, reduceCtorEq, false_and, and_false,
      Token.symbol.injEq, true_and, List.nil_eq, List.append_eq_nil_iff, exists_const, or_self,
      or_false, false_or] at h
    obtain ⟨_, rfl, _, rfl, _, rfl, rfl, rfl⟩ := h
    exact ⟨[.ident "f"], .round, [.ident "a"], [.ident "b"], [], rfl, rfl, rfl⟩
  have hargs : ∀ arg ∈ [[], call, []], bracketsPair arg ∧ CommasInside arg := by
    intro arg harg
    simp only [List.mem_cons, List.not_mem_nil, or_false] at harg
    obtain rfl | rfl | rfl := harg
    · exact hnil
    · exact hcall
    · exact hnil
  exact ⟨hne, hargs, arguments_and_commaSeparated.2 [[], call, []] hne hargs⟩

end RuleConditions
