import RuleConditions.Cut
import RuleConditions.Proofs.Neighbours
import RuleConditions.Proofs.Pairing

/-!
# All cuts of a slice

The scans `Cut.first?` and `Cut.last?` look for one cut and carry a count and the token before
along. `Cut.all` lists every cut at a binary operator, from left to right, each with the number of
brackets open there, and a scan is a search in that list (`first?_eq`, `last?_eq`).  So what
`Cut.find?` finds depends only on the `candidates` of a precedence (`find?_eq`): it finds one of
them (`mem_candidates_of_find?`), and it finds nothing only if there are none
(`find?_eq_none_iff`).

The list of a slice in two parts is put together from the lists of the parts (`all_append`), and
its members are exactly the operators in binary position (`mem_all_iff`).
-/

namespace RuleConditions

namespace Cut

/-! ### The list of cuts -/

/-- The cut of a longer slice, with `front` before and `back` behind. -/
def widen (front back : List Token) (c : Cut) : Cut := ⟨front ++ c.left, c.op, c.right ++ back⟩

/-- Whether the operator of a cut is in binary position. -/
def IsBinary (c : Cut) : Prop := (Token.symbol (.operator c.op)).binary? c.left.getLast? = some c.op

instance (c : Cut) : Decidable c.IsBinary := inferInstanceAs (Decidable (_ = _))

/-- Every cut of a slice at a binary operator, with the number of brackets open there; `level`
brackets are open at the start, and `before` is the token in front of the slice. -/
def all (level : Int) (before : Option Token) : List Token → List (Int × Cut)
  | [] => []
  | t :: ts =>
    ((t.binary? before).map fun op => (level, ⟨[], op, ts⟩)).toList ++
      (all (level + t.nestingChange) (some t) ts).map fun q => (q.1, q.2.cons t)

variable {k n : Int} {b : Option Token} {t : Token} {ts xs ys : List Token} {c : Cut}

@[simp]
theorem tokens_widen (front back : List Token) (c : Cut) :
    (c.widen front back).tokens = front ++ c.tokens ++ back := by
  simp [widen, tokens]

@[simp]
theorem op_widen (front back : List Token) (c : Cut) : (c.widen front back).op = c.op := rfl

theorem eq_operator_of_binary? {op : Operator} (h : t.binary? b = some op) :
    t = .symbol (.operator op) := by
  unfold Token.binary? at h
  split at h
  · split at h
    · exact absurd h (by simp)
    · rw [Option.some.inj h]
  · exact absurd h (by simp)

/-- **The cuts of two slices in a row** are those of the first, widened by the second, and then
those of the second, widened by the first. -/
theorem all_append (k : Int) (b : Option Token) (xs ys : List Token) :
    all k b (xs ++ ys) =
      (all k b xs).map (fun q => (q.1, q.2.widen [] ys)) ++
        (all (k + nesting xs) (xs.getLast?.or b) ys).map fun q => (q.1, q.2.widen xs []) := by
  induction xs generalizing k b with
  | nil => simp [all, widen]
  | cons t xs ih =>
    rw [List.cons_append, all, all, ih, nesting_cons, getLast?_cons_or, ← Int.add_assoc]
    cases t.binary? b <;> simp [widen, cons, Function.comp_def]

/-- The token in front matters only in so far as an operand can end with it. -/
theorem all_congr {b' : Option Token} (h : b.any Token.endsOperand = b'.any Token.endsOperand)
    (k : Int) (ts : List Token) : all k b ts = all k b' ts := by
  cases ts with
  | nil => rfl
  | cons t ts =>
    have hb : t.binary? b = t.binary? b' := by
      unfold Token.binary?
      rw [h]
    rw [all, all, hb]

/-- The members of the list are the operators in binary position. -/
theorem mem_all_iff :
    (n, c) ∈ all k b ts ↔ c.tokens = ts ∧
      (Token.symbol (.operator c.op)).binary? (c.left.getLast?.or b) = some c.op ∧
      n = k + nesting c.left := by
  obtain ⟨left, op, right⟩ := c
  induction ts generalizing k b left with
  | nil => simp [all, tokens]
  | cons t ts ih =>
    rw [all, List.mem_append, Option.mem_toList, List.mem_map]
    constructor
    · rintro (h | ⟨⟨m, left', op', right'⟩, h, hc⟩)
      · -- the cut is at the first token
        obtain ⟨op', hop, heq⟩ := Option.map_eq_some_iff.mp h
        simp only [Prod.mk.injEq, mk.injEq] at heq
        obtain ⟨rfl, rfl, rfl, rfl⟩ := heq
        obtain rfl := eq_operator_of_binary? hop
        exact ⟨rfl, hop, by simp⟩
      · -- the cut is one of the rest
        simp only [cons, Prod.mk.injEq, mk.injEq] at hc
        obtain ⟨rfl, rfl, rfl, rfl⟩ := hc
        obtain ⟨rfl, hop, rfl⟩ := (ih left').mp h
        exact ⟨rfl, by rwa [getLast?_cons_or], by rw [nesting_cons, Int.add_assoc]⟩
    · rintro ⟨htokens, hop, rfl⟩
      cases left with
      | nil =>
        simp only [tokens, List.nil_append, List.cons.injEq] at htokens
        obtain ⟨rfl, rfl⟩ := htokens
        left
        rw [Option.map_eq_some_iff]
        exact ⟨op, hop, by simp⟩
      | cons u left =>
        simp only [tokens, List.cons_append, List.cons.injEq] at htokens
        obtain ⟨rfl, rfl⟩ := htokens
        right
        refine ⟨(k + nesting (u :: left), ⟨left, op, right⟩), (ih left).mpr ⟨rfl, ?_, ?_⟩, rfl⟩
        · rwa [getLast?_cons_or] at hop
        · rw [nesting_cons, Int.add_assoc]

/-- The members of the list of a whole slice. -/
theorem mem_all_zero_iff :
    (n, c) ∈ all 0 none ts ↔ c.tokens = ts ∧ c.IsBinary ∧ n = nesting c.left := by
  rw [mem_all_iff, Option.or_none, Int.zero_add, IsBinary]

/-- The cuts of a slice are cuts of every longer slice, if no operand ends in front of it. -/
theorem mem_all_widen {front : List Token} (hfront : front.getLast?.any Token.endsOperand = false)
    (back : List Token) (h : (n, c) ∈ all 0 none ts) :
    (nesting front + n, c.widen front back) ∈ all 0 none (front ++ ts ++ back) := by
  obtain ⟨rfl, hbinary, rfl⟩ := mem_all_zero_iff.mp h
  refine mem_all_zero_iff.mpr ⟨tokens_widen front back c, ?_, ?_⟩
  · rw [IsBinary, op_widen, widen, List.getLast?_append]
    rw [IsBinary] at hbinary
    -- only with nothing on its left the operator sees what stands in front
    cases hlast : c.left.getLast? with
    | none =>
      rw [hlast] at hbinary
      rw [← hbinary]
      simp [Token.binary?, hfront]
    | some u =>
      rw [hlast] at hbinary
      exact hbinary
  · rw [widen, nesting_append]

/-- A token that is no binary operator adds no cut. -/
theorem all_cons (ht : t.binary? b = none) (k : Int) (ts : List Token) :
    all k b (t :: ts) = (all (k + t.nestingChange) (some t) ts).map fun q => (q.1, q.2.cons t) := by
  rw [all, ht, Option.map_none, Option.toList_none, List.nil_append]

/-- An operator behind something that ends an operand is in binary position. -/
theorem binary?_of_endsOperand {op : Operator} (hb : b.any Token.endsOperand = true) :
    (Token.symbol (.operator op)).binary? b = some op := by
  simp [Token.binary?, hb]

/-- **The cuts of two slices with an operator between them** are those of the left one, the one at
the operator and those of the right one. -/
theorem all_binary {left right : List Token} {op : Operator} (hnesting : nesting left = 0)
    (hends : left.getLast?.any Token.endsOperand = true) (k : Int) (b : Option Token) :
    all k b (left ++ .symbol (.operator op) :: right) =
      (all k b left).map (fun q => (q.1, q.2.widen [] (.symbol (.operator op) :: right))) ++
        (k, ⟨left, op, right⟩) :: (all k none right).map fun q =>
          (q.1, q.2.widen (left ++ [.symbol (.operator op)]) []) := by
  have hb : (left.getLast?.or b).any Token.endsOperand = true := any_or_eq_true hends b
  -- no operand ends with an operator, so the right slice is scanned as if it stood alone
  have hnone : all k (some (.symbol (.operator op))) right = all k none right := by
    apply all_congr
    rfl
  rw [all_append, hnesting, Int.add_zero, all, binary?_of_endsOperand hb]
  simp [hnone, Token.nestingChange, widen, cons, Function.comp_def]

/-! ### Scans as searches -/

/-- Whether a search stops at a cut. -/
def Search.accepts (s : Search) (q : Int × Cut) : Bool :=
  s.wanted q.2.op && (!s.outermost || q.1 == 0)

theorem hit?_eq (s : Search) (k : Int) (b : Option Token) (t : Token) (ts : List Token) :
    s.hit? k b t = (t.binary? b).filter fun op => s.accepts (k, ⟨[], op, ts⟩) := rfl

/-- What stands on the two sides of the operator does not matter to a search. -/
theorem accepts_comp_cons (s : Search) (t : Token) :
    s.accepts ∘ (fun q => (q.1, q.2.cons t)) = s.accepts := rfl

/-- A scan for the first cut is a search from the left. -/
theorem first?_eq (s : Search) (k : Int) (b : Option Token) (ts : List Token) :
    first? s k b ts = ((all k b ts).find? s.accepts).map (·.2) := by
  induction ts generalizing k b with
  | nil => rfl
  | cons t ts ih =>
    rw [first?, all, ih, hit?_eq s k b t ts, List.find?_append, List.find?_map, accepts_comp_cons]
    cases t.binary? b with
    | none => simp [Function.comp_def]
    | some op =>
      cases hop : s.accepts (k, ⟨[], op, ts⟩) with
      | false => simp [Option.filter, hop, Function.comp_def]
      | true => simp [Option.filter, hop]

/-- A scan for the last cut is a search from the right. -/
theorem last?_eq (s : Search) (k : Int) (b : Option Token) (ts : List Token) :
    last? s k b ts = ((all k b ts).reverse.find? s.accepts).map (·.2) := by
  induction ts generalizing k b with
  | nil => rfl
  | cons t ts ih =>
    rw [last?, all, ih, hit?_eq s k b t ts, List.reverse_append, ← List.map_reverse,
      List.find?_append, List.find?_map, accepts_comp_cons]
    -- what is found in the rest comes before what is found here
    cases (all (k + t.nestingChange) (some t) ts).reverse.find? s.accepts with
    | some q => rfl
    | none =>
      cases t.binary? b with
      | none => rfl
      | some op =>
        cases hop : s.accepts (k, ⟨[], op, ts⟩) with
        | false => simp [hop]
        | true => simp [hop]

/-! ### Candidates -/

/-- The cuts among which the levels of a precedence choose: the outermost ones if brackets matter,
and all of them otherwise. -/
def candidates (p : Precedence) (ts : List Token) : List Cut :=
  ((all 0 none ts).filter fun q => !p.mindsBrackets || q.1 == 0).map (·.2)

/-- The cut that a level chooses. -/
def pick (level : Level) (cuts : List Cut) : Option Cut :=
  match level.side with
  | .first => cuts.find? (level.holds ·.op)
  | .last => cuts.reverse.find? (level.holds ·.op)

theorem at?_eq (p : Precedence) (level : Level) (ts : List Token) :
    at? p.mindsBrackets level ts = pick level (candidates p ts) := by
  have haccepts : Search.accepts ⟨level.holds, p.mindsBrackets⟩ =
      fun q => decide ((!p.mindsBrackets || q.1 == 0) = true ∧ level.holds q.2.op = true) := by
    funext q
    rw [Search.accepts, Bool.and_comm, Bool.decide_and, Bool.decide_eq_true, Bool.decide_eq_true]
  rw [at?, pick, first?_eq, last?_eq, haccepts, candidates, ← List.map_reverse,
    ← List.filter_reverse, List.find?_map, List.find?_map, List.find?_filter, List.find?_filter]
  rfl

/-- **What is found depends only on the candidates.** -/
theorem find?_eq (p : Precedence) (ts : List Token) :
    find? p ts = p.levels.findSome? (pick · (candidates p ts)) := by
  rw [find?]
  congr 1
  funext level
  exact at?_eq p level ts

theorem mem_of_pick {level : Level} {cuts : List Cut} (h : pick level cuts = some c) :
    c ∈ cuts ∧ level.holds c.op := by
  unfold pick at h
  split at h
  · have hholds := List.find?_some h
    exact ⟨List.mem_of_find?_eq_some h, hholds⟩
  · have hholds := List.find?_some h
    exact ⟨List.mem_reverse.mp (List.mem_of_find?_eq_some h), hholds⟩

theorem pick_eq_none_iff {level : Level} {cuts : List Cut} :
    pick level cuts = none ↔ ∀ c ∈ cuts, level.holds c.op = false := by
  unfold pick
  split <;> simp

/-- Every operator belongs to a level. -/
theorem exists_level (p : Precedence) (op : Operator) :
    ∃ level ∈ p.levels, level.holds op = true := by
  cases p <;>
    rcases op with (_ | _) | (_ | _ | _ | _ | _ | _ | _ | _) | (_ | _ | _ | _ | _) <;> decide

theorem mem_candidates_of_find? {p : Precedence} (h : find? p ts = some c) :
    c ∈ candidates p ts := by
  rw [find?_eq] at h
  obtain ⟨level, -, hlevel⟩ := List.exists_of_findSome?_eq_some h
  exact (mem_of_pick hlevel).1

/-- Nothing is found only where there is nothing to find. -/
theorem find?_eq_none_iff {p : Precedence} : find? p ts = none ↔ candidates p ts = [] := by
  rw [find?_eq, List.findSome?_eq_none_iff]
  constructor
  · intro h
    refine List.eq_nil_iff_forall_not_mem.mpr fun c hc => ?_
    obtain ⟨level, hmem, hholds⟩ := exists_level p c.op
    have := pick_eq_none_iff.mp (h level hmem) c hc
    rw [hholds] at this
    exact absurd this (by decide)
  · intro h level _
    rw [h, pick_eq_none_iff]
    exact fun c hc => absurd hc (by simp)

/-- Where nothing is found, brackets matter and every binary operator stands inside some. -/
theorem ne_zero_of_find?_eq_none {p : Precedence} (h : find? p ts = none) {q : Int × Cut}
    (hq : q ∈ all 0 none ts) : p.mindsBrackets = true ∧ q.1 ≠ 0 := by
  have hnil := find?_eq_none_iff.mp h
  rw [candidates, List.map_eq_nil_iff, List.filter_eq_nil_iff] at hnil
  simpa using hnil q hq

/-- Where every binary operator stands inside brackets and these matter, nothing is found. -/
theorem find?_eq_none_of_ne_zero {p : Precedence} (hp : p.mindsBrackets = true)
    (h : ∀ q ∈ all 0 none ts, q.1 ≠ 0) : find? p ts = none := by
  rw [find?_eq_none_iff, candidates, List.map_eq_nil_iff, List.filter_eq_nil_iff]
  simpa [hp] using h

/-- Where nothing is found and brackets do not matter there is no binary operator. -/
theorem all_eq_nil_of_find?_eq_none {p : Precedence} (hp : p.mindsBrackets = false)
    (h : find? p ts = none) : all 0 none ts = [] := by
  refine List.eq_nil_iff_forall_not_mem.mpr fun q hq => ?_
  have := (ne_zero_of_find?_eq_none h hq).1
  rw [hp] at this
  exact absurd this (by decide)

theorem mem_candidates_iff {p : Precedence} :
    c ∈ candidates p ts ↔
      c.tokens = ts ∧ c.IsBinary ∧ (p.mindsBrackets = true → nesting c.left = 0) := by
  rw [candidates, List.mem_map]
  constructor
  · rintro ⟨⟨n, c⟩, h, rfl⟩
    rw [List.mem_filter, mem_all_zero_iff] at h
    obtain ⟨⟨htokens, hbinary, rfl⟩, hlevel⟩ := h
    exact ⟨htokens, hbinary, fun hp => by simpa [hp] using hlevel⟩
  · rintro ⟨htokens, hbinary, hlevel⟩
    have hmem := mem_all_zero_iff.mpr ⟨htokens, hbinary, rfl⟩
    refine ⟨(nesting c.left, c), List.mem_filter.mpr ⟨hmem, ?_⟩, rfl⟩
    cases hp : p.mindsBrackets with
    | false => simp
    | true => simp [hlevel hp]

/-- Both precedences have the same candidates where no operator stands inside brackets. -/
theorem candidates_eq_of_outermost (h : ∀ q ∈ all 0 none ts, q.1 = 0) (p : Precedence) :
    candidates p ts = (all 0 none ts).map (·.2) := by
  rw [candidates, List.filter_eq_self.mpr]
  intro q hq
  simp [h q hq]

/-! ### Operators inside brackets -/

/-- Whether the operator of a cut stands between two brackets that are partners. -/
def InBrackets (c : Cut) : Prop :=
  ∃ (outer : List Token) (b : Bracket) (inner after rest : List Token),
    c.left = outer ++ .symbol (.opening b) :: inner ∧
    c.right = after ++ .symbol (.closing b) :: rest ∧
    bracketsPair (Cut.mk inner c.op after).tokens

theorem InBrackets.widen (h : c.InBrackets) (front back : List Token) :
    (c.widen front back).InBrackets := by
  obtain ⟨outer, b, inner, after, rest, hleft, hright, hpair⟩ := h
  refine ⟨front ++ outer, b, inner, after, rest ++ back, ?_, ?_, hpair⟩
  · rw [Cut.widen, hleft, List.append_assoc]
  · rw [Cut.widen, hright, List.append_assoc, List.cons_append]

theorem InBrackets.cons (h : c.InBrackets) (t : Token) : (c.cons t).InBrackets := by
  have := h.widen [t] []
  rwa [Cut.widen, List.append_nil] at this

/-- The operators of a slice in brackets are all inside brackets. -/
theorem inBrackets_of_mem_all_enclose {q : Int × Cut} {interior : List Token} (bracket : Bracket)
    (hpair : bracketsPair interior)
    (hq : q ∈ all k b (.symbol (.opening bracket) :: (interior ++ [.symbol (.closing bracket)]))) :
    k < q.1 ∧ q.2.InBrackets := by
  rw [all_cons rfl, all_append, all_cons (t := .symbol (.closing bracket)) rfl] at hq
  simp only [all, List.map_nil, List.append_nil, List.map_map, List.mem_map] at hq
  obtain ⟨⟨n, c⟩, hc, rfl⟩ := hq
  obtain ⟨rfl, -, rfl⟩ := mem_all_iff.mp hc
  have := nesting_nonneg hpair
  refine ⟨?_, [], bracket, c.left, c.right, [], rfl, rfl, hpair⟩
  simp only [Function.comp, Token.nestingChange_opening]
  omega

/-- So are the operators of a slice in brackets behind a name. -/
theorem inBrackets_of_mem_all_ident_enclose {q : Int × Cut} {interior : List Token} (name : String)
    (bracket : Bracket) (hpair : bracketsPair interior)
    (hq : q ∈ all k b (.ident name :: .symbol (.opening bracket) ::
      (interior ++ [.symbol (.closing bracket)]))) :
    k < q.1 ∧ q.2.InBrackets := by
  rw [all_cons rfl, List.mem_map] at hq
  obtain ⟨q, hq, rfl⟩ := hq
  obtain ⟨hk, hin⟩ := inBrackets_of_mem_all_enclose bracket hpair hq
  exact ⟨by simpa [Token.nestingChange] using hk, hin.cons _⟩

/-- Where brackets pair, some are open around an operator inside brackets. -/
theorem nesting_pos_of_inBrackets (h : c.InBrackets) (hpair : bracketsPair c.tokens) :
    0 < nesting c.left := by
  obtain ⟨outer, b, inner, after, rest, hleft, -, hinner⟩ := h
  rw [tokens, hleft, List.append_assoc] at hpair
  have houter : 0 ≤ nesting outer := nesting_nonneg hpair
  have hinner : 0 ≤ nesting inner := nesting_nonneg hinner
  rw [hleft]
  exact nesting_opening_pos houter hinner

end Cut

/-! ### Rows of operators -/

/-- The binary operators of a slice, from left to right. -/
def operators (ts : List Token) : List Operator :=
  (Cut.all 0 none ts).map (·.2.op)

section Operators

variable {xs ys left right : List Token} {op : Operator}

/-- The operators of the cuts are what each token stands for after the one before it. -/
theorem Cut.map_op_all (k : Int) (b : Option Token) (ts : List Token) :
    (all k b ts).map (·.2.op) =
      ((b :: ts.map some).zip ts).filterMap fun q => q.2.binary? q.1 := by
  induction ts generalizing k b with
  | nil => rfl
  | cons t ts ih =>
    have hrest := ih (k + t.nestingChange) (some t)
    rw [all, List.map_append, List.map_map, List.map_cons, List.zip_cons_cons, List.filterMap_cons]
    cases t.binary? b with
    | none => exact hrest
    | some op => exact congrArg (op :: ·) hrest

theorem operators_concat (xs : List Token) (t : Token) :
    operators (xs ++ [t]) = operators xs ++ (t.binary? xs.getLast?).toList := by
  rw [operators, Cut.all_append, Option.or_none, List.map_append, List.map_map, List.map_map]
  cases h : t.binary? xs.getLast? <;> simp [operators, Cut.all, h, Function.comp_def]

/-- **The operators of two slices in a row**, if no operand ends between them. -/
theorem operators_append (h : xs.getLast?.any Token.endsOperand = false) (ys : List Token) :
    operators (xs ++ ys) = operators xs ++ operators ys := by
  have hlast : Cut.all (0 + nesting xs) (xs.getLast?.or none) ys =
      Cut.all (0 + nesting xs) none ys := by
    apply Cut.all_congr
    rw [Option.or_none, h]
    rfl
  -- how many brackets are open does not matter for which operators there are
  have hright : (Cut.all (0 + nesting xs) none ys).map (·.2.op) = operators ys := by
    rw [operators, Cut.map_op_all, Cut.map_op_all]
  rw [operators, Cut.all_append, hlast, List.map_append, List.map_map, List.map_map, ← hright]
  rfl

/-- At a binary operator the row falls into the operators on its two sides. -/
theorem operators_binary (h : (Cut.mk left op right).IsBinary) :
    operators (left ++ .symbol (.operator op) :: right) =
      operators left ++ op :: operators right := by
  have hlast : (left ++ [Token.symbol (.operator op)]).getLast?.any Token.endsOperand = false := by
    simp [Token.endsOperand]
  rw [Cut.IsBinary] at h
  rw [List.append_cons, operators_append hlast, operators_concat, h, Option.toList_some,
    List.append_assoc, List.singleton_append]

end Operators

end RuleConditions
