import RuleConditions.Proofs.Grammar

/-!
# Expressions as trees

`Expr k` is the type of the trees that a conventional reader makes of a derivable slice: operators
with a higher `Operator.rank` bind more tightly, operators of one rank group to the left, and `k`
is the lowest rank that may stand at the root.  The type leaves no other trees, so none is
ill-formed.

Every derivable slice is the slice of such a tree (`Derives.isSlice`).  Conversely the root of
a tree is found by scanning its slice (`Expr.find?_binary`): the operators outside brackets on its
left have at least its rank and those on its right a higher one (`Expr.le_rank`).
-/

namespace RuleConditions

/-! ### Trees -/

/-- How tightly an operator binds. -/
def Operator.rank : Operator → Nat
  | .logical .or => 0
  | .logical .and => 1
  | .comparison _ => 2
  | .arithmetic .add | .arithmetic .subtract => 3
  | .arithmetic .multiply | .arithmetic .divide | .arithmetic .remainder => 4

mutual

/-- An operand of a binary operator. -/
inductive Operand : Type where
  /-- A word of digits and dots, which need not be a numeral. -/
  | number (word : String) (plain : word.toList.all fun c => c.isDigit || c == '.')
  | name (name : String)
  | text (contents : String)
  | group (inner : Expr 0)
  | call (function : String) (args : List (Expr 0))
  | index (array : String) (position : Expr 0)
  | not (operand : Operand)
  | negative (operand : Operand)

/-- An expression with an operand or an operator of rank `k` or higher at the root. -/
inductive Expr : Nat → Type where
  | operand {k : Nat} (o : Operand) : Expr k
  | binary {k : Nat} (op : Operator) (tight : k ≤ op.rank) (left : Expr op.rank)
      (right : Expr (op.rank + 1)) : Expr k

end

mutual

/-- The slice of an operand. -/
def Operand.tokens : Operand → List Token
  | .number word _ => [.number word]
  | .name name => [.ident name]
  | .text contents => [.str contents]
  | .group inner => .symbol (.opening .round) :: (inner.tokens ++ [.symbol (.closing .round)])
  | .call function args => .ident function :: .symbol (.opening .round) ::
      (commaSeparated (Expr.tokensAll args) ++ [.symbol (.closing .round)])
  | .index array position => .ident array :: .symbol (.opening .square) ::
      (position.tokens ++ [.symbol (.closing .square)])
  | .not operand => .symbol .bang :: operand.tokens
  | .negative operand => .symbol (.operator (.arithmetic .subtract)) :: operand.tokens

/-- The slice of an expression. -/
def Expr.tokens : {k : Nat} → Expr k → List Token
  | _, .operand o => o.tokens
  | _, .binary op _ left right => left.tokens ++ .symbol (.operator op) :: right.tokens

/-- The slices of the arguments of a call. -/
def Expr.tokensAll : List (Expr 0) → List (List Token)
  | [] => []
  | e :: es => e.tokens :: Expr.tokensAll es

end

mutual

/-- How many slices are under evaluation at once. -/
def Operand.height : Operand → Nat
  | .number _ _ | .name _ | .text _ => 1
  | .group inner => 1 + inner.height
  | .call _ args => 1 + Expr.heightAll args
  | .index _ position => 1 + position.height
  | .not operand | .negative operand => 1 + operand.height

@[inherit_doc Operand.height]
def Expr.height : {k : Nat} → Expr k → Nat
  | _, .operand o => o.height
  | _, .binary _ _ left right => 1 + max left.height right.height

/-- The greatest height of several expressions. -/
def Expr.heightAll : List (Expr 0) → Nat
  | [] => 0
  | e :: es => max e.height (Expr.heightAll es)

end

/-! ### Trees and derivations -/

mutual

theorem Operand.derives : (o : Operand) → Derives .any .operand o.tokens
  | .number _ _ => .word (by simp) trivial
  | .name _ => .word (by simp) trivial
  | .text _ => .word (by simp) trivial
  | .group inner => .group inner.derives
  | .call _ args => .call trivial (Expr.derives_tokensAll args)
  | .index _ position => .index trivial position.derives
  | .not operand => .not operand.derives
  | .negative operand => .negative operand.derives

theorem Expr.derives : {k : Nat} → (e : Expr k) → Derives .any .expression e.tokens
  | _, .operand o => .operand o.derives
  | _, .binary op _ left right => left.derives.append op right.derives

theorem Expr.derives_tokensAll :
    (es : List (Expr 0)) → ∀ ts ∈ Expr.tokensAll es, Derives .any .expression ts
  | [] => fun _ h => absurd h List.not_mem_nil
  | e :: es => fun ts h => by
    rw [Expr.tokensAll, List.mem_cons] at h
    obtain rfl | h := h
    · exact e.derives
    · exact Expr.derives_tokensAll es ts h

end

/-- The tree of an expression with one more operator and operand behind it: the operator takes as
its left side whatever binds at least as tightly. -/
def Expr.extend : {k : Nat} → Expr k → (op : Operator) → Operand → k ≤ op.rank → Expr k
  | _, .operand first, op, o, h => .binary op h (.operand first) (.operand o)
  | _, .binary root tight left right, op, o, h =>
    if h' : op.rank ≤ root.rank then .binary op h (.binary root h' left right) (.operand o)
    -- a looser root keeps its place
    else .binary root tight left (right.extend op o (by omega))

theorem Expr.tokens_extend {k : Nat} (e : Expr k) (op : Operator) (o : Operand) (h : k ≤ op.rank) :
    (e.extend op o h).tokens = e.tokens ++ .symbol (.operator op) :: o.tokens := by
  match e with
  | .operand first => rfl
  | .binary root tight left right =>
    rw [extend]
    split
    · rfl
    · rw [tokens, tokens, tokens_extend right, List.append_assoc, List.cons_append]

/-- The vocabulary of the trees, which may use any name and whose words have only ASCII digits. -/
def Vocabulary.plain : Vocabulary where
  word t := ∀ word, t = .number word → word.toList.all fun c => c.isDigit || c == '.'
  callable _ _ := True
  indexable _ := True

/-- What a derivable slice is the slice of. -/
def Nonterminal.IsSlice : Nonterminal → List Token → Prop
  | .expression, ts => ∃ e : Expr 0, e.tokens = ts
  | .operand, ts => ∃ o : Operand, o.tokens = ts

theorem Expr.exists_tokensAll {args : List (List Token)}
    (h : ∀ arg ∈ args, ∃ e : Expr 0, e.tokens = arg) : ∃ es, Expr.tokensAll es = args := by
  induction args with
  | nil => exact ⟨[], rfl⟩
  | cons arg args ih =>
    rw [List.forall_mem_cons] at h
    obtain ⟨⟨e, rfl⟩, hargs⟩ := h
    obtain ⟨es, rfl⟩ := ih hargs
    exact ⟨e :: es, rfl⟩

/-- **Every derivable slice is the slice of a tree.** -/
theorem Derives.isSlice {n : Nonterminal} {ts : List Token} (h : Derives .plain n ts) :
    n.IsSlice ts := by
  induction h with
  | operand _ ih =>
    obtain ⟨o, rfl⟩ := ih
    exact ⟨.operand o, rfl⟩
  | binary op _ _ ihl ihr =>
    obtain ⟨e, rfl⟩ := ihl
    obtain ⟨o, rfl⟩ := ihr
    exact ⟨e.extend op o (Nat.zero_le _), e.tokens_extend op o _⟩
  | not _ ih =>
    obtain ⟨o, rfl⟩ := ih
    exact ⟨.not o, rfl⟩
  | negative _ ih =>
    obtain ⟨o, rfl⟩ := ih
    exact ⟨.negative o, rfl⟩
  | group _ ih =>
    obtain ⟨e, rfl⟩ := ih
    exact ⟨.group e, rfl⟩
  | @call name _ _ _ ih =>
    obtain ⟨es, rfl⟩ := Expr.exists_tokensAll ih
    exact ⟨.call name es, rfl⟩
  | @index name _ _ _ ih =>
    obtain ⟨e, rfl⟩ := ih
    exact ⟨.index name e, rfl⟩
  | @word t hsymbol hword =>
    cases t with
    | number word => exact ⟨.number word (hword word rfl), rfl⟩
    | ident name => exact ⟨.name name, rfl⟩
    | str contents => exact ⟨.text contents, rfl⟩
    | symbol s => exact absurd rfl (hsymbol s)

/-! ### The root of a tree is found -/

variable {k : Nat}

/-- An operand has no operator outside brackets. -/
theorem Derives.find?_eq_none {ts : List Token} (h : Derives .any .operand ts) :
    Cut.find? .conventional ts = none := by
  refine Cut.find?_eq_none_of_ne_zero rfl fun q hq => ?_
  obtain ⟨hpos, -⟩ | ⟨-, hn, -⟩ := h.mem_all rfl hq
  · exact Int.ne_of_gt hpos
  · exact absurd hn (by decide)

theorem Operand.find?_eq_none (o : Operand) : Cut.find? .conventional o.tokens = none :=
  o.derives.find?_eq_none

/-- The shape of an operand. -/
def Operand.shape : Operand → Shape
  | .number word _ => .single (.number word)
  | .name n => .single (.ident n)
  | .text contents => .single (.str contents)
  | .group inner => .group inner.tokens
  | .call function args => .call function (commaSeparated (Expr.tokensAll args))
  | .index array position => .index array position.tokens
  | .not operand => .not operand.tokens
  | .negative operand => .negative operand.tokens

theorem Operand.tokens_shape (o : Operand) : o.shape.tokens = o.tokens := by
  cases o <;> rfl

theorem Operand.isOperand_shape (o : Operand) : o.shape.IsOperand := by
  cases o with
  | number word plain => exact fun s h => absurd h (by simp)
  | name name => exact fun s h => absurd h (by simp)
  | text contents => exact fun s h => absurd h (by simp)
  | group inner => exact inner.derives.bracketsPair
  | call function args =>
    have hargs := Expr.derives_tokensAll args
    exact bracketsPair_commaSeparated fun arg harg => (hargs arg harg).bracketsPair
  | index array position => exact position.derives.bracketsPair
  | not operand => trivial
  | negative operand => trivial

/-- **Operands are read as what they are.** -/
theorem Operand.read_tokens (o : Operand) : Shape.read .conventional o.tokens = o.shape :=
  Shape.read_eq o.isOperand_shape o.tokens_shape o.find?_eq_none

/-- The candidates of two slices with an operator between them. -/
theorem Derives.candidates_binary {n : Nonterminal} {left : List Token}
    (hleft : Derives .any n left) (op : Operator) (right : List Token) :
    Cut.candidates .conventional (left ++ .symbol (.operator op) :: right) =
      (Cut.candidates .conventional left).map (Cut.widen [] (.symbol (.operator op) :: right)) ++
        ⟨left, op, right⟩ ::
          (Cut.candidates .conventional right).map
            (Cut.widen (left ++ [.symbol (.operator op)]) []) := by
  rw [Cut.candidates,
    Cut.all_binary (nesting_of_bracketsPair hleft.bracketsPair) hleft.endsOperand]
  simp [Cut.candidates, List.filter_map, Function.comp_def]

/-- The candidates of a tree with an operator at the root. -/
theorem Expr.candidates_binary (op : Operator) (left : Expr op.rank) (right : Expr (op.rank + 1)) :
    Cut.candidates .conventional (left.tokens ++ .symbol (.operator op) :: right.tokens) =
      (Cut.candidates .conventional left.tokens).map
          (Cut.widen [] (.symbol (.operator op) :: right.tokens)) ++
        ⟨left.tokens, op, right.tokens⟩ ::
          (Cut.candidates .conventional right.tokens).map
            (Cut.widen (left.tokens ++ [.symbol (.operator op)]) []) :=
  left.derives.candidates_binary op right.tokens

/-- **The operators of a tree outside brackets** bind at least as tightly as its type says. -/
theorem Expr.le_rank {k : Nat} (e : Expr k) {c : Cut}
    (hc : c ∈ Cut.candidates .conventional e.tokens) : k ≤ c.op.rank := by
  match e with
  | .operand o =>
    rw [tokens, Cut.find?_eq_none_iff.mp o.find?_eq_none] at hc
    exact absurd hc List.not_mem_nil
  | .binary op tight left right =>
    rw [tokens, candidates_binary, List.mem_append, List.mem_cons, List.mem_map, List.mem_map] at hc
    obtain ⟨d, hd, rfl⟩ | rfl | ⟨d, hd, rfl⟩ := hc
    · rw [Cut.op_widen]
      exact Nat.le_trans tight (left.le_rank hd)
    · exact tight
    · have := right.le_rank hd
      rw [Cut.op_widen]
      omega

theorem findSome?_range {α : Type} {f : Nat → Option α} {a : α} {r n : Nat} (hr : r < n)
    (hbelow : ∀ i < r, f i = none) (h : f r = some a) : (List.range n).findSome? f = some a := by
  induction n with
  | zero => exact absurd hr (Nat.not_lt_zero r)
  | succ n ih =>
    rw [List.range_succ, List.findSome?_append]
    obtain hlt | rfl := Nat.lt_succ_iff_lt_or_eq.mp hr
    · rw [ih hlt, Option.some_or]
    · have hnone : (List.range r).findSome? f = none :=
        List.findSome?_eq_none_iff.mpr fun i hi => hbelow i (List.mem_range.mp hi)
      rw [hnone, Option.none_or, List.findSome?_singleton, h]

/-- The conventional levels are the ranks, from the loosest to the tightest. -/
theorem levels_conventional :
    Precedence.conventional.levels =
      (List.range 5).map fun r => ⟨fun op => op.rank == r, .last⟩ := by
  -- a level holds exactly the operators of its rank
  have hholds : ∀ op : Operator, (op == .logical .or) = (op.rank == 0) ∧
      (op == .logical .and) = (op.rank == 1) ∧ op.isComparison = (op.rank == 2) ∧
      op.isSum = (op.rank == 3) ∧ op.isProduct = (op.rank == 4) := by
    rintro ((_ | _) | (_ | _ | _ | _ | _ | _ | _ | _) | (_ | _ | _ | _ | _)) <;> decide
  simp [Precedence.levels, List.range_succ, funext_iff, hholds]

theorem Operator.rank_lt (op : Operator) : op.rank < 5 := by
  rcases op with (_ | _) | op | (_ | _ | _ | _ | _) <;> simp [rank]

/-- **The last of the loosest operators is found.** -/
theorem find?_eq_some_of_rank {ts : List Token} {c : Cut} {pre post : List Cut}
    (h : Cut.candidates .conventional ts = pre ++ c :: post)
    (hpre : ∀ d ∈ pre, c.op.rank ≤ d.op.rank) (hpost : ∀ d ∈ post, c.op.rank < d.op.rank) :
    Cut.find? .conventional ts = some c := by
  rw [Cut.find?_eq, levels_conventional, List.findSome?_map, h]
  refine findSome?_range c.op.rank_lt (fun r hr => ?_) ?_
  · show Cut.pick ⟨fun op => op.rank == r, .last⟩ (pre ++ c :: post) = none
    refine Cut.pick_eq_none_iff.mpr fun d hd => ?_
    rw [List.mem_append, List.mem_cons] at hd
    have : r ≠ d.op.rank := by
      obtain hd | rfl | hd := hd
      · have := hpre d hd
        omega
      · omega
      · have := hpost d hd
        omega
    simpa using this.symm
  · have hnone : post.reverse.find? (fun d => d.op.rank == c.op.rank) = none := by
      refine List.find?_eq_none.mpr fun d hd => ?_
      have := hpost d (List.mem_reverse.mp hd)
      simp only [beq_iff_eq]
      omega
    simp [Cut.pick, hnone]

/-- The operator between two slices is found if it binds less tightly than those on its right and no
more tightly than those on its left. -/
theorem Derives.find?_binary {n : Nonterminal} {left right : List Token} {op : Operator}
    (hderives : Derives .any n left)
    (hleft : ∀ d ∈ Cut.candidates .conventional left, op.rank ≤ d.op.rank)
    (hright : ∀ d ∈ Cut.candidates .conventional right, op.rank < d.op.rank) :
    Cut.find? .conventional (left ++ .symbol (.operator op) :: right) = some ⟨left, op, right⟩ := by
  refine find?_eq_some_of_rank (hderives.candidates_binary op right) (fun d hd => ?_) fun d hd => ?_
  · obtain ⟨inner, hinner, rfl⟩ := List.mem_map.mp hd
    rw [Cut.op_widen]
    exact hleft inner hinner
  · obtain ⟨inner, hinner, rfl⟩ := List.mem_map.mp hd
    rw [Cut.op_widen]
    exact hright inner hinner

/-- **The root of a tree is found** by a scan of its slice. -/
theorem Expr.find?_binary (op : Operator) (left : Expr op.rank) (right : Expr (op.rank + 1)) :
    Cut.find? .conventional (left.tokens ++ .symbol (.operator op) :: right.tokens) =
      some ⟨left.tokens, op, right.tokens⟩ :=
  left.derives.find?_binary (fun _ => left.le_rank) fun _ => right.le_rank

/-! ### Each slice has one tree -/

mutual

theorem Operand.eq_of_tokens_eq :
    (o o' : Operand) → o.tokens = o'.tokens → o = o'
  | .number word plain, o', h => by
    cases o' with
    | number word' plain' => simpa [Operand.tokens] using h
    | _ => simp [Operand.tokens] at h
  | .name n, o', h => by
    cases o' with
    | name n' => simpa [Operand.tokens] using h
    | _ => simp [Operand.tokens] at h
  | .text contents, o', h => by
    cases o' with
    | text contents' => simpa [Operand.tokens] using h
    | _ => simp [Operand.tokens] at h
  | .group inner, o', h => by
    cases o' with
    | group inner' =>
      have hinner : inner.tokens = inner'.tokens := by simpa [Operand.tokens] using h
      rw [inner.eq_of_tokens_eq inner' hinner]
    | _ => simp [Operand.tokens] at h
  | .call function args, o', h => by
    cases o' with
    | call function' args' =>
      have hcall : function = function' ∧
          commaSeparated (Expr.tokensAll args) = commaSeparated (Expr.tokensAll args') := by
        simpa [Operand.tokens] using h
      -- the commas of an argument are inside brackets, so the arguments can be told apart
      have hargs := congrArg arguments hcall.2
      rw [Derives.arguments_commaSeparated (Expr.derives_tokensAll args),
        Derives.arguments_commaSeparated (Expr.derives_tokensAll args')] at hargs
      rw [hcall.1, Expr.eq_of_tokensAll_eq args args' hargs]
    | _ => simp [Operand.tokens] at h
  | .index array position, o', h => by
    cases o' with
    | index array' position' =>
      have hindex : array = array' ∧ position.tokens = position'.tokens := by
        simpa [Operand.tokens] using h
      rw [hindex.1, position.eq_of_tokens_eq position' hindex.2]
    | _ => simp [Operand.tokens] at h
  | .not operand, o', h => by
    cases o' with
    | not operand' =>
      have hoperand : operand.tokens = operand'.tokens := by simpa [Operand.tokens] using h
      rw [operand.eq_of_tokens_eq operand' hoperand]
    | _ => simp [Operand.tokens] at h
  | .negative operand, o', h => by
    cases o' with
    | negative operand' =>
      have hoperand : operand.tokens = operand'.tokens := by simpa [Operand.tokens] using h
      rw [operand.eq_of_tokens_eq operand' hoperand]
    | _ => simp [Operand.tokens] at h

/-- **A slice has at most one tree.** -/
theorem Expr.eq_of_tokens_eq :
    {k : Nat} → (e e' : Expr k) → e.tokens = e'.tokens → e = e'
  | _, .operand o, e', h => by
    match e' with
    | .operand o' => rw [o.eq_of_tokens_eq o' h]
    | .binary op tight left right =>
      have hnone := o.find?_eq_none
      have hsome := Expr.find?_binary op left right
      rw [Expr.tokens, Expr.tokens] at h
      rw [h, hsome] at hnone
      exact absurd hnone (by simp)
  | _, .binary op tight left right, e', h => by
    match e' with
    | .operand o =>
      have hnone := o.find?_eq_none
      have hsome := Expr.find?_binary op left right
      rw [Expr.tokens, Expr.tokens] at h
      rw [← h, hsome] at hnone
      exact absurd hnone (by simp)
    | .binary op' tight' left' right' =>
      rw [Expr.tokens, Expr.tokens] at h
      have hcut := Expr.find?_binary op' left' right'
      rw [← h, Expr.find?_binary op left right, Option.some.injEq, Cut.mk.injEq] at hcut
      obtain ⟨hleft, rfl, hright⟩ := hcut
      rw [left.eq_of_tokens_eq left' hleft, right.eq_of_tokens_eq right' hright]

theorem Expr.eq_of_tokensAll_eq :
    (es es' : List (Expr 0)) → Expr.tokensAll es = Expr.tokensAll es' → es = es'
  | [], [], _ => rfl
  | [], _ :: _, h => by simp [Expr.tokensAll] at h
  | _ :: _, [], h => by simp [Expr.tokensAll] at h
  | e :: es, e' :: es', h => by
    rw [Expr.tokensAll, Expr.tokensAll, List.cons.injEq] at h
    rw [e.eq_of_tokens_eq e' h.1, Expr.eq_of_tokensAll_eq es es' h.2]

end

/-- **Every derivable slice is read in one way**: it is the slice of exactly one tree. -/
theorem exists_unique_expr {ts : List Token} (h : Derives .plain .expression ts) :
    ∃ e : Expr 0, e.tokens = ts ∧ ∀ e' : Expr 0, e'.tokens = ts → e' = e := by
  obtain ⟨e, rfl⟩ := h.isSlice
  exact ⟨e, rfl, fun e' he' => e'.eq_of_tokens_eq e he'⟩

end RuleConditions
