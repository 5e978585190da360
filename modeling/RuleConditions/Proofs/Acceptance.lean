import RuleConditions.Proofs.Grammar
import RuleConditions.Proofs.Outcome

/-!
# What evaluation accepts

Under either precedence a slice has a value exactly if the grammar derives it from the words and
names that are known; under the legacy precedence, which does not mind brackets, all its binary
operators moreover have to stand outside brackets (`accepted_iff`).  Where a slice is cut does not
matter for this: the sides of any operator outside brackets are expressions again, and expressions
on both sides make one.

What a value presupposes is also told token by token (`Resolved`): nothing in an accepted slice is
unknown, on whichever side of a `&&` or `||` it stands.
-/

namespace RuleConditions

variable {bindings : Bindings} {p : Precedence} {ts part : List Token} {v : Value} {depth : Nat}
  {inner : List Token → Except RuleError Value}

/-! ### Known words and names -/

/-- The words that have a value, the functions and the arrays. -/
def Vocabulary.known (bindings : Bindings) : Vocabulary where
  word t := ∃ v, valueOfToken bindings t = .ok v
  callable name count := ∃ f, Function.find? name = some f ∧ f.arity.allows count = true
  indexable name := ∃ items, bindings.get? name = some (.array items)

/-- A call has a value exactly for the numbers of arguments the function takes. -/
theorem exists_valueOfCall_eq_ok_iff {f : Function} {args : List Float} :
    (∃ v, valueOfCall f args = .ok v) ↔ f.arity.allows args.length = true := by
  unfold valueOfCall Function.call Arity.allows
  cases f.arity.fault? args.length <;> simp

theorem itemsOfName_eq_ok_iff {name : String} {items : List Value} :
    itemsOfName bindings name = .ok items ↔ bindings.get? name = some (.array items) := by
  unfold itemsOfName
  cases bindings.get? name with
  | none => simp
  | some value => cases value <;> simp [Value.items?]

/-! ### Accepted slices -/

/-- A slice that has a value: the grammar derives it from what is known, and where brackets do not
matter no binary operator stands inside them. -/
structure Accepted (p : Precedence) (bindings : Bindings) (ts : List Token) : Prop where
  derives : Derives (.known bindings) .expression ts
  outermost : p.mindsBrackets = false → ∀ q ∈ Cut.all 0 none ts, q.1 = 0

/-- A slice in which no operator is found has operators inside brackets only where these matter. -/
theorem outermost_of_find?_eq_none (h : Cut.find? p ts = none) :
    p.mindsBrackets = false → ∀ q ∈ Cut.all 0 none ts, q.1 = 0 := by
  intro hp q hq
  rw [Cut.all_eq_nil_of_find?_eq_none hp h] at hq
  exact absurd hq (by simp)

/-- **Accepted slices with an operator between them are accepted.** -/
theorem Accepted.append {left right : List Token} (op : Operator) (hleft : Accepted p bindings left)
    (hright : Accepted p bindings right) :
    Accepted p bindings (left ++ .symbol (.operator op) :: right) := by
  refine ⟨hleft.derives.append op hright.derives, fun hp q hq => ?_⟩
  rw [Cut.all_binary (nesting_of_bracketsPair hleft.derives.bracketsPair) hleft.derives.endsOperand,
    List.mem_append, List.mem_cons, List.mem_map, List.mem_map] at hq
  obtain ⟨q, hq, rfl⟩ | rfl | ⟨q, hq, rfl⟩ := hq
  · exact hleft.outermost hp q hq
  · rfl
  · exact hright.outermost hp q hq

/-- **At an operator that is found** an accepted slice falls into two accepted slices. -/
theorem Accepted.sides (h : Accepted p bindings ts) {c : Cut} (hc : Cut.find? p ts = some c) :
    Accepted p bindings c.left ∧ Accepted p bindings c.right := by
  obtain ⟨htokens, hbinary, hnesting⟩ :=
    Cut.mem_candidates_iff.mp (Cut.mem_candidates_of_find? hc)
  have hmem : (nesting c.left, c) ∈ Cut.all 0 none ts :=
    Cut.mem_all_zero_iff.mpr ⟨htokens, hbinary, rfl⟩
  -- either the scan passed over brackets, or there are no operators in them
  have hzero : nesting c.left = 0 := by
    cases hp : p.mindsBrackets with
    | true => exact hnesting hp
    | false => exact h.outermost hp _ hmem
  rw [hzero] at hmem
  obtain ⟨hleft, hright⟩ := h.derives.sides hmem
  have hall : Cut.all 0 none (c.left ++ .symbol (.operator c.op) :: c.right) = _ :=
    Cut.all_binary hzero hleft.endsOperand 0 none
  rw [← Cut.tokens, htokens] at hall
  refine ⟨⟨hleft, fun hp q hq => ?_⟩, ⟨hright, fun hp q hq => ?_⟩⟩
  · have hwide : (q.1, q.2.widen [] (.symbol (.operator c.op) :: c.right)) ∈ Cut.all 0 none ts := by
      rw [hall]
      exact List.mem_append_left _ (List.mem_map.mpr ⟨q, hq, rfl⟩)
    have := h.outermost hp _ hwide
    exact this
  · have hwide :
        (q.1, q.2.widen (c.left ++ [.symbol (.operator c.op)]) []) ∈ Cut.all 0 none ts := by
      rw [hall]
      exact List.mem_append_right _ (List.mem_cons_of_mem _ (List.mem_map.mpr ⟨q, hq, rfl⟩))
    have := h.outermost hp _ hwide
    exact this

/-- The operand behind a `!` or a `-` is an operand, if no operator is found. -/
theorem Accepted.toOperand {t : Token} (h : Accepted p bindings ts) (ht : t.nestingChange = 0)
    (hends : t.endsOperand = false) (hfind : Cut.find? p (t :: ts) = none) :
    Derives (.known bindings) .operand ts := by
  refine h.derives.toOperand fun q hq => ?_
  have hfront : [t].getLast?.any Token.endsOperand = false := by simpa using hends
  have hwide := Cut.mem_all_widen hfront [] hq
  rw [List.append_nil, List.singleton_append] at hwide
  have := (Cut.ne_zero_of_find?_eq_none hfind hwide).2
  simpa [ht] using this

/-! ### What has a value is accepted -/

/-- **A shape that has a value is accepted** if its parts are that have one. -/
theorem accepted_of_value_eq_ok (h : (Shape.read p ts).value bindings inner = .ok v)
    (hparts : ∀ part ∈ (Shape.read p ts).parts, ∀ w, inner part = .ok w →
      Accepted p bindings part) :
    Accepted p bindings ts := by
  cases hfind : Cut.find? p ts with
  | some c =>
    rw [Shape.read_of_find?_eq_some hfind] at h hparts
    obtain ⟨a, ha, h⟩ := bind_eq_ok_iff.mp h
    obtain ⟨b, hb, -⟩ := bind_eq_ok_iff.mp h
    have hleft := hparts c.left (by simp [Shape.parts]) a ha
    have hright := hparts c.right (by simp [Shape.parts]) b hb
    rw [← Cut.tokens_find? hfind]
    exact hleft.append c.op hright
  | none =>
    refine ⟨?_, outermost_of_find?_eq_none hfind⟩
    have htokens := Shape.tokens_read p ts
    cases hs : Shape.read p ts with
    | empty =>
      rw [hs] at h
      exact absurd h (by simp [Shape.value])
    | unreadable slice =>
      rw [hs] at h
      exact absurd h (by simp [Shape.value])
    | binary left op right => exact absurd hs (Shape.read_ne_binary hfind left right op)
    | group interior =>
      rw [hs] at h hparts htokens
      rw [← htokens]
      exact .operand (.group (hparts interior (by simp [Shape.parts]) v h).derives)
    | call name interior =>
      rw [hs] at h hparts htokens
      obtain ⟨f, hf, h⟩ := bind_eq_ok_iff.mp h
      obtain ⟨args, hargs, h⟩ := bind_eq_ok_iff.mp h
      obtain ⟨hlength, hmem⟩ := mapM_eq_ok hargs
      rw [← htokens, Shape.tokens, ← commaSeparated_arguments interior]
      refine .operand (.call ⟨f, functionOfName_eq_ok_iff.mp hf, ?_⟩ fun arg harg => ?_)
      · -- a call checks its arity only once all arguments have their values
        rw [← hlength]
        exact exists_valueOfCall_eq_ok_iff.mp ⟨v, h⟩
      · obtain ⟨x, hx⟩ := hmem arg harg
        obtain ⟨w, hw, -⟩ := bind_eq_ok_iff.mp hx
        exact (hparts arg harg w hw).derives
    | index name position =>
      rw [hs] at h hparts htokens
      obtain ⟨items, hitems, h⟩ := bind_eq_ok_iff.mp h
      obtain ⟨w, hw, -⟩ := bind_eq_ok_iff.mp h
      rw [← htokens]
      exact .operand (.index ⟨items, itemsOfName_eq_ok_iff.mp hitems⟩
        (hparts position (by simp [Shape.parts]) w hw).derives)
    | not operand =>
      rw [hs] at h hparts htokens
      obtain ⟨w, hw, -⟩ := bind_eq_ok_iff.mp h
      rw [← htokens] at hfind ⊢
      have hoperand := hparts operand (by simp [Shape.parts]) w hw
      -- an operator found behind the `!` would have been found in front of it too
      exact .operand (.not (hoperand.toOperand rfl rfl hfind))
    | negative operand =>
      rw [hs] at h hparts htokens
      obtain ⟨w, hw, -⟩ := bind_eq_ok_iff.mp h
      rw [← htokens] at hfind ⊢
      have hoperand := hparts operand (by simp [Shape.parts]) w hw
      exact .operand (.negative (hoperand.toOperand rfl rfl hfind))
    | single t =>
      rw [hs] at h htokens
      rw [← htokens]
      refine .operand (.word (fun s ht => ?_) ⟨v, h⟩)
      rw [ht] at h
      exact absurd h (by simp [Shape.value, valueOfToken])

/-- **What has a value is accepted.** -/
theorem accepted_of_ok (scope : Scope) (h : (evaluate scope ts depth).outcome = .ok v) :
    Accepted scope.precedence scope.bindings ts := by
  induction ts using Shape.induction scope.precedence generalizing depth v with
  | step ts ih =>
    rw [outcome_evaluate] at h
    split at h
    · exact absurd h (by simp)
    · exact accepted_of_value_eq_ok h fun part hpart w hw => ih part hpart hw

/-! ### What is accepted has a value, unless it is too deep -/

/-- An accepted slice in which no operator is found is read as the grammar derives it. -/
theorem Accepted.isOperand_read (h : Accepted p bindings ts) (hfind : Cut.find? p ts = none) :
    (Shape.read p ts).IsOperand ∧ (Shape.read p ts).Admitted (.known bindings) ∧
      ∀ part ∈ (Shape.read p ts).parts, Derives (.known bindings) .expression part := by
  have hoperand := h.derives.toOperand fun q hq => (Cut.ne_zero_of_find?_eq_none hfind hq).2
  obtain ⟨s, hs, htokens, hadmitted, hparts⟩ := hoperand.exists_shape
  rw [Shape.read_eq hs htokens hfind]
  exact ⟨hs, hadmitted, hparts⟩

/-- **The parts of an accepted slice are accepted.** -/
theorem Accepted.parts (h : Accepted p bindings ts) (hpart : part ∈ (Shape.read p ts).parts) :
    Accepted p bindings part := by
  cases hfind : Cut.find? p ts with
  | some c =>
    rw [Shape.read_of_find?_eq_some hfind] at hpart
    simp only [Shape.parts, List.mem_cons, List.not_mem_nil, or_false] at hpart
    obtain rfl | rfl := hpart
    · exact (h.sides hfind).1
    · exact (h.sides hfind).2
  | none =>
    refine ⟨(h.isOperand_read hfind).2.2 part hpart, fun hp q hq => ?_⟩
    have hnil := Cut.all_eq_nil_of_find?_eq_none hp hfind
    rw [← Shape.tokens_read p ts] at hnil
    rw [Shape.all_eq_nil_of_mem_parts hpart hnil] at hq
    exact absurd hq (by simp)

/-- The rule for an operand whose head is known makes no error. -/
theorem Shape.not_fault_of_admitted {s : Shape} {e : RuleError} (hs : s.IsOperand)
    (hadmitted : s.Admitted (.known bindings)) : ¬s.Fault bindings e := by
  intro h
  cases h with
  | empty => exact hs
  | unreadable slice => exact hs
  | unknownFunction interior h =>
    obtain ⟨f, hf, -⟩ := hadmitted
    exact absurd (h.symm.trans hf) (by simp)
  | arity hf h =>
    obtain ⟨f, hf', harity⟩ := hadmitted
    obtain rfl := Option.some.inj (hf.symm.trans hf')
    simp [Arity.allows, h] at harity
  | unboundArray position h =>
    obtain ⟨items, hitems⟩ := hadmitted
    exact absurd (h.symm.trans hitems) (by simp)
  | notAnArray position h hnone =>
    obtain ⟨items, hitems⟩ := hadmitted
    obtain rfl := Option.some.inj (h.symm.trans hitems)
    exact absurd hnone (by simp [Value.items?])
  | unboundWord hword hfixed h =>
    obtain ⟨w, hw⟩ := hadmitted
    have herror := (Shape.Fault.unboundWord hword hfixed h).valueOfToken_eq
    exact absurd (herror.symm.trans hw) (by simp)
  | meaningless h =>
    obtain ⟨w, hw⟩ := hadmitted
    exact absurd (h.symm.trans hw) (by simp)

/-- **The rule for an accepted slice** makes no error. -/
theorem Accepted.not_fault {e : RuleError} (h : Accepted p bindings ts) :
    ¬(Shape.read p ts).Fault bindings e := by
  cases hfind : Cut.find? p ts with
  | some c =>
    rw [Shape.read_of_find?_eq_some hfind]
    intro hfault
    cases hfault
  | none =>
    obtain ⟨hs, hadmitted, -⟩ := h.isOperand_read hfind
    exact Shape.not_fault_of_admitted hs hadmitted

/-- **An accepted slice fails only because it is too deep.** -/
theorem Accepted.failsOnly_evaluate {scope : Scope}
    (h : Accepted scope.precedence scope.bindings ts) (depth : Nat) :
    FailsOnly (· = .tooDeep scope.depthLimit) (evaluate scope ts depth).outcome := by
  induction ts using Shape.induction scope.precedence generalizing depth with
  | step ts ih =>
    rw [outcome_evaluate]
    split
    · exact failsOnly_error rfl
    · exact Shape.failsOnly_value (fun e he => absurd he h.not_fault) fun part hpart =>
        ih part hpart (h.parts hpart) (depth + 1)

/-- **A slice that is not too deep has a value exactly if it is accepted.** -/
theorem accepted_iff {scope : Scope} (h : FailsOnly NotTooDeep (evaluate scope ts depth).outcome) :
    (∃ v, (evaluate scope ts depth).outcome = .ok v) ↔
      Accepted scope.precedence scope.bindings ts := by
  constructor
  · rintro ⟨v, hv⟩
    exact accepted_of_ok scope hv
  · intro haccepted
    cases houtcome : (evaluate scope ts depth).outcome with
    | ok v => exact ⟨v, rfl⟩
    | error e => exact absurd (haccepted.failsOnly_evaluate depth e houtcome) (h e houtcome _)

/-! ### One precedence accepts what the other does -/

/-- **The legacy precedence accepts** what the conventional one does, if no binary operator stands
inside brackets, and nothing else. -/
theorem exists_ok_legacy_iff (bindings : Bindings) (maxDepth : Nat) (ts : List Token) (depth : Nat)
    (hlegacy : ∀ max,
      (evaluate ⟨bindings, .legacy, maxDepth⟩ ts depth).outcome ≠ .error (.tooDeep max))
    (hconventional : ∀ max,
      (evaluate ⟨bindings, .conventional, maxDepth⟩ ts depth).outcome ≠ .error (.tooDeep max)) :
    (∃ v, (evaluate ⟨bindings, .legacy, maxDepth⟩ ts depth).outcome = .ok v) ↔
      (∃ v, (evaluate ⟨bindings, .conventional, maxDepth⟩ ts depth).outcome = .ok v) ∧
        ∀ c : Cut, c.tokens = ts → c.IsBinary → ¬c.InBrackets := by
  have hl : FailsOnly NotTooDeep (evaluate ⟨bindings, .legacy, maxDepth⟩ ts depth).outcome :=
    fun e he max hmax => hlegacy max (hmax ▸ he)
  have hc : FailsOnly NotTooDeep (evaluate ⟨bindings, .conventional, maxDepth⟩ ts depth).outcome :=
    fun e he max hmax => hconventional max (hmax ▸ he)
  rw [accepted_iff hl, accepted_iff hc]
  constructor
  · intro h
    refine ⟨⟨h.derives, fun hp => absurd hp (by simp [Precedence.mindsBrackets])⟩, ?_⟩
    exact h.derives.outermost_iff.mp (h.outermost rfl)
  · rintro ⟨h, hnone⟩
    exact ⟨h.derives, fun _ => h.derives.outermost_iff.mpr hnone⟩

/-- A sum in a group is cut inside the group by the legacy precedence, and is a sum to the other. -/
theorem exists_ok_legacy_iff_of_group :
    let ts : List Token := [.symbol (.opening .round), .number "1",
      .symbol (.operator (.arithmetic .add)), .number "2", .symbol (.closing .round)]
    (∀ max, (evaluate ⟨.empty, .legacy, 64⟩ ts 0).outcome ≠ .error (.tooDeep max)) ∧
      (∀ max, (evaluate ⟨.empty, .conventional, 64⟩ ts 0).outcome ≠ .error (.tooDeep max)) ∧
      ¬(∃ v, (evaluate ⟨.empty, .legacy, 64⟩ ts 0).outcome = .ok v) := by
  intro ts
  have hl : ∀ max, (evaluate ⟨.empty, .legacy, 64⟩ ts 0).outcome ≠ .error (.tooDeep max) :=
    fun max he => failsOnly_evaluate ⟨.empty, .legacy, 64⟩ ts 0 (by decide) _ he max rfl
  have hc : ∀ max, (evaluate ⟨.empty, .conventional, 64⟩ ts 0).outcome ≠ .error (.tooDeep max) :=
    fun max he => failsOnly_evaluate ⟨.empty, .conventional, 64⟩ ts 0 (by decide) _ he max rfl
  refine ⟨hl, hc, fun hok => ?_⟩
  have hnone := ((exists_ok_legacy_iff .empty 64 ts 0 hl hc).mp hok).2
  refine hnone ⟨[.symbol (.opening .round), .number "1"], .arithmetic .add,
    [.number "2", .symbol (.closing .round)]⟩ rfl (by decide) ?_
  exact ⟨[], .round, [.number "1"], [.number "2"], [], rfl, rfl, by decide⟩

/-! ### Nothing unresolved is passed over -/

/-- Whether a name is a keyword, a constant or bound. -/
def IsKnownName (bindings : Bindings) (name : String) : Prop :=
  (keyword? name).isSome ∨ (constant? name).isSome ∨ (bindings.get? name).isSome

/-- What a token with these tokens behind it presupposes: a name in front of a round bracket is
called with as many arguments as the function takes, one in front of a square bracket holds an
array, and any other name is known, as is a word of digits that is no numeral. -/
def Resolved (bindings : Bindings) : Token → (after : List Token) → Prop
  | .ident name, .symbol (.opening .round) :: after =>
    ∃ f interior rest, after = interior ++ .symbol (.closing .round) :: rest ∧
      bracketsPair interior ∧ Function.find? name = some f ∧
      f.arity.allows (arguments interior).length = true
  | .ident name, .symbol (.opening .square) :: _ =>
    ∃ items, bindings.get? name = some (.array items)
  | .ident name, _ => IsKnownName bindings name
  | .number word, _ =>
    (isNumeral word.toList = true ∧ (Number.read? word.toList).isSome) ∨ IsKnownName bindings word
  | .str _, _ | .symbol _, _ => True

/-- Whether every token of a list has a property together with what stands behind it. -/
def EachWithRest (P : Token → List Token → Prop) (ts : List Token) : Prop :=
  ∀ before t after, ts = before ++ t :: after → P t after

theorem eachWithRest_nil (P : Token → List Token → Prop) : EachWithRest P [] :=
  fun before t after h => absurd h (by simp)

theorem eachWithRest_cons {P : Token → List Token → Prop} {t : Token} (ht : P t ts)
    (hts : EachWithRest P ts) : EachWithRest P (t :: ts) := by
  intro before u after h
  cases before with
  | nil =>
    rw [List.nil_append, List.cons.injEq] at h
    rwa [← h.1, ← h.2]
  | cons w before =>
    rw [List.cons_append, List.cons.injEq] at h
    exact hts before u after h.2

theorem isKnownName_of_valueOfName {name : String} (h : valueOfName bindings name = .ok v) :
    IsKnownName bindings name := by
  unfold valueOfName fixedName? at h
  unfold IsKnownName
  cases hkey : keyword? name with
  | some w => exact .inl rfl
  | none =>
    cases hconst : constant? name with
    | some x => exact .inr (.inl rfl)
    | none =>
      rw [hkey, hconst] at h
      cases hget : bindings.get? name with
      | some w => exact .inr (.inr rfl)
      | none =>
        rw [hget] at h
        exact absurd h (by simp)

/-- A word that has a value is resolved in front of anything but an opening bracket. -/
theorem resolved_of_valueOfToken {t : Token} {rest : List Token}
    (hrest : ∀ b, rest.head? ≠ some (.symbol (.opening b))) (h : valueOfToken bindings t = .ok v) :
    Resolved bindings t rest := by
  cases t with
  | str contents => trivial
  | symbol s => trivial
  | ident name =>
    have hname := isKnownName_of_valueOfName h
    cases rest with
    | nil => exact hname
    | cons u rest =>
      have hu : ∀ b, u ≠ .symbol (.opening b) := fun b hu => hrest b (by rw [hu]; rfl)
      cases u with
      | symbol s =>
        cases s with
        | opening b => exact absurd rfl (hu b)
        | _ => exact hname
      | _ => exact hname
  | number word =>
    rw [valueOfToken] at h
    rw [Resolved]
    split at h
    · rename_i hnumeral
      split at h
      · rename_i hread
        exact .inl ⟨hnumeral, by rw [hread]; rfl⟩
      · exact absurd h (by simp)
    · exact .inr (isKnownName_of_valueOfName h)

/-- Comma-separated arguments are resolved if each of them is. -/
theorem eachWithRest_commaSeparated {P : Token → List Token → Prop} {args : List (List Token)}
    {rest : List Token} (hcomma : ∀ after, P (.symbol .comma) after)
    (hargs : ∀ arg ∈ args, ∀ rest, (∀ b, rest.head? ≠ some (.symbol (.opening b))) →
      EachWithRest P rest → EachWithRest P (arg ++ rest))
    (hrest : ∀ b, rest.head? ≠ some (.symbol (.opening b))) (h : EachWithRest P rest) :
    EachWithRest P (commaSeparated args ++ rest) := by
  induction args with
  | nil => exact h
  | cons arg args ih =>
    have harg := hargs arg (List.mem_cons_self ..)
    have hrow := ih fun other hother => hargs other (List.mem_cons_of_mem _ hother)
    cases args with
    | nil =>
      rw [commaSeparated_singleton]
      exact harg rest hrest h
    | cons other args =>
      rw [commaSeparated_cons_cons, List.append_assoc]
      exact harg _ (by simp) (eachWithRest_cons (hcomma _) hrow)

/-- **Whatever is derived from what is known is resolved**, in front of anything resolved that does
not start with an opening bracket. -/
theorem eachWithRest_resolved {n : Nonterminal} (h : Derives (.known bindings) n ts)
    {rest : List Token} (hrest : ∀ b, rest.head? ≠ some (.symbol (.opening b)))
    (htail : EachWithRest (Resolved bindings) rest) :
    EachWithRest (Resolved bindings) (ts ++ rest) := by
  induction h generalizing rest with
  | operand _ ih => exact ih hrest htail
  | binary op _ _ ihl ihr =>
    rw [List.append_assoc]
    exact ihl (by simp) (eachWithRest_cons trivial (ihr hrest htail))
  | not _ ih => exact eachWithRest_cons trivial (ih hrest htail)
  | negative _ ih => exact eachWithRest_cons trivial (ih hrest htail)
  | group _ ih =>
    rw [List.cons_append, List.append_assoc]
    exact eachWithRest_cons trivial (ih (by simp) (eachWithRest_cons trivial htail))
  | @call name args hname hargs ih =>
    obtain ⟨f, hf, harity⟩ := hname
    have hpair := bracketsPair_commaSeparated fun arg harg => (hargs arg harg).bracketsPair
    have hread := Derives.arguments_commaSeparated hargs
    rw [List.cons_append, List.cons_append, List.append_assoc]
    refine eachWithRest_cons ?_ (eachWithRest_cons trivial ?_)
    · exact ⟨f, commaSeparated args, rest, rfl, hpair, hf, by rwa [hread]⟩
    · exact eachWithRest_commaSeparated (fun _ => trivial) (fun arg harg _ => ih arg harg) (by simp)
        (eachWithRest_cons trivial htail)
  | index hname _ ih =>
    rw [List.cons_append, List.cons_append, List.append_assoc]
    refine eachWithRest_cons hname (eachWithRest_cons trivial ?_)
    exact ih (by simp) (eachWithRest_cons trivial htail)
  | word hsymbol hword =>
    obtain ⟨v, hv⟩ := hword
    exact eachWithRest_cons (resolved_of_valueOfToken hrest hv) htail

/-- **What has a value is well-formed and resolved** as a whole, under either precedence: the
grammar derives it, and no token of it presupposes what is not there. -/
theorem derives_and_resolved_of_ok (scope : Scope) (ts : List Token) (depth : Nat) (v : Value)
    (h : (evaluate scope ts depth).outcome = .ok v) :
    Derives .any .expression ts ∧
      ∀ before t after, ts = before ++ t :: after → Resolved scope.bindings t after := by
  have haccepted := accepted_of_ok scope h
  refine ⟨haccepted.derives.toAny, ?_⟩
  have hnil : EachWithRest (Resolved scope.bindings) [] := eachWithRest_nil _
  have hresolved := eachWithRest_resolved haccepted.derives (by simp) hnil
  rwa [List.append_nil] at hresolved

/-- A call, an array and a numeral on the two sides of a `&&`. -/
theorem derives_and_resolved_of_ok_of_call :
    let bindings : Bindings := .ofList [("x", .bool true), ("xs", .array [.null])]
    let ts : List Token := [.ident "max", .symbol (.opening .round), .ident "x", .symbol .comma,
      .number "1", .symbol (.closing .round), .symbol (.operator (.logical .and)), .symbol .bang,
      .ident "xs", .symbol (.opening .square), .number "0", .symbol (.closing .square)]
    ∃ v, (evaluate ⟨bindings, .legacy, 64⟩ ts 0).outcome = .ok v ∧ Derives .any .expression ts ∧
      ∀ before t after, ts = before ++ t :: after → Resolved bindings t after := by
  intro bindings ts
  have hx : Derives (.known bindings) .expression [.ident "x"] :=
    .operand (.word (by simp) ⟨_, rfl⟩)
  have hone : Derives (.known bindings) .expression [.number "1"] :=
    .operand (.word (by simp) ⟨_, rfl⟩)
  have hzero : Derives (.known bindings) .expression [.number "0"] :=
    .operand (.word (by simp) ⟨_, rfl⟩)
  have hcall : Derives (.known bindings) .expression (.ident "max" :: .symbol (.opening .round) ::
      (commaSeparated [[.ident "x"], [.number "1"]] ++ [.symbol (.closing .round)])) :=
    .operand (.call ⟨_, rfl, rfl⟩ (by simp [hx, hone]))
  have hindex : Derives (.known bindings) .operand (.ident "xs" :: .symbol (.opening .square) ::
      ([.number "0"] ++ [.symbol (.closing .square)])) :=
    .index ⟨_, rfl⟩ hzero
  have haccepted : Accepted .legacy bindings ts := by
    exact ⟨.binary (.logical .and) hcall (.not hindex), fun _ => by decide⟩
  have hdepth := failsOnly_evaluate ⟨bindings, .legacy, 64⟩ ts 0 (by decide)
  obtain ⟨v, hv⟩ := (accepted_iff hdepth).mpr haccepted
  exact ⟨v, hv, derives_and_resolved_of_ok ⟨bindings, .legacy, 64⟩ ts 0 v hv⟩

end RuleConditions
