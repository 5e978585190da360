import RuleConditions.Cut

/-!
# The shape of a slice

The rules of evaluation are tried in a fixed order and the first that fits the whole slice is
applied: an operator between two operands, a group in brackets, a call, an index, `!` or `-` in front
of an operand, and last a single token.  `Shape.read` finds the rule that fits.  Every shape is the
slice it was read from (`tokens_read`).
-/

namespace RuleConditions

/-! ### Brackets around a slice -/

/-- Whether the last token, and none before it, closes a bracket that was opened before the slice.
In that bracket `inner` others are open at the start.  The kinds of bracket are not told apart. -/
def closesAtEnd : (inner : Nat) → List Token → Bool
  | _, [] => false
  | inner, .symbol (.opening _) :: ts => closesAtEnd (inner + 1) ts
  | 0, .symbol (.closing _) :: ts => ts.isEmpty
  | inner + 1, .symbol (.closing _) :: ts => closesAtEnd inner ts
  | inner, _ :: ts => closesAtEnd inner ts

/-- What stands between an opening bracket of kind `b` and its partner, if the partner is the last of
the tokens `after` the bracket.  Where brackets do not matter, every closing bracket of that kind is
taken for the partner. -/
def enclosed? (p : Precedence) (b : Bracket) (after : List Token) : Option (List Token) :=
  if after.getLast? = some (.symbol (.closing b)) && (!p.mindsBrackets || closesAtEnd 0 after) then
    some after.dropLast
  else none

/-! ### Shapes -/

inductive Shape where
  | empty
  | binary (left : List Token) (op : Operator) (right : List Token)
  | group (interior : List Token)
  | call (name : String) (interior : List Token)
  | index (name : String) (position : List Token)
  | not (operand : List Token)
  | negative (operand : List Token)
  | single (t : Token)
  /-- No rule fits. -/
  | unreadable (ts : List Token)
deriving DecidableEq, Repr

namespace Shape

/-- The slice of a shape. -/
def tokens : Shape → List Token
  | .empty => []
  | .binary left op right => left ++ .symbol (.operator op) :: right
  | .group interior => .symbol (.opening .round) :: (interior ++ [.symbol (.closing .round)])
  | .call name interior =>
    .ident name :: .symbol (.opening .round) :: (interior ++ [.symbol (.closing .round)])
  | .index name position =>
    .ident name :: .symbol (.opening .square) :: (position ++ [.symbol (.closing .square)])
  | .not operand => .symbol .bang :: operand
  | .negative operand => .symbol (.operator (.arithmetic .subtract)) :: operand
  | .single t => [t]
  | .unreadable ts => ts

/-- A slice `t :: ts` that ends with the partner of its first bracket. -/
def bracketed? (p : Precedence) : Token → List Token → Option Shape
  | .symbol (.opening .round), ts => (enclosed? p .round ts).map .group
  | .ident name, .symbol (.opening .round) :: ts => (enclosed? p .round ts).map (.call name)
  | .ident name, .symbol (.opening .square) :: ts => (enclosed? p .square ts).map (.index name)
  | _, _ => none

/-- A slice `t :: ts` with no operator to cut it at and no brackets around it. -/
def simple : Token → List Token → Shape
  | .symbol .bang, ts => .not ts
  | .symbol (.operator (.arithmetic .subtract)), ts => .negative ts
  | t, [] => .single t
  | t, ts => .unreadable (t :: ts)

/-- The shape of a slice. -/
def read (p : Precedence) : List Token → Shape
  | [] => .empty
  | t :: ts =>
    match Cut.find? p (t :: ts) with
    | some cut => .binary cut.left cut.op cut.right
    | none => (bracketed? p t ts).getD (simple t ts)

/-! ### Nothing is lost -/

theorem append_of_enclosed? {p : Precedence} {b : Bracket} {after interior : List Token}
    (h : enclosed? p b after = some interior) : interior ++ [.symbol (.closing b)] = after := by
  unfold enclosed? at h
  split at h
  · rename_i hlast
    obtain rfl := Option.some.inj h
    simp only [Bool.and_eq_true, decide_eq_true_eq] at hlast
    obtain ⟨front, rfl⟩ := List.getLast?_eq_some_iff.1 hlast.1
    simp
  · simp at h

theorem tokens_bracketed? {p : Precedence} {t : Token} {ts : List Token} {s : Shape}
    (h : bracketed? p t ts = some s) : s.tokens = t :: ts := by
  unfold bracketed? at h
  split at h
  case h_4 => simp at h
  all_goals
    obtain ⟨interior, hi, rfl⟩ := Option.map_eq_some_iff.1 h
    simp [tokens, append_of_enclosed? hi]

theorem tokens_simple (t : Token) (ts : List Token) : (simple t ts).tokens = t :: ts := by
  unfold simple
  split <;> rfl

/-- Every shape is the slice it was read from. -/
theorem tokens_read (p : Precedence) (ts : List Token) : (read p ts).tokens = ts := by
  cases ts with
  | nil => rfl
  | cons t ts =>
    simp only [read]
    split
    · rename_i cut h
      exact Cut.tokens_find? h
    · cases h : bracketed? p t ts with
      | none => exact tokens_simple t ts
      | some s => exact tokens_bracketed? h

end Shape

end RuleConditions
