import RuleConditions.Precedence

/-!
# Cutting a slice at an operator

A cut of a slice is a binary operator in it with the tokens on its two sides, so `left`, the operator
and `right` together are the slice again (`tokens_first?`, `tokens_last?`).  The scans go through
the slice once and carry along the number of open brackets and the token before.

Call arguments are cut at commas in the same way (`arguments`).
-/

namespace RuleConditions

/-! ### Binary operators -/

/-- The binary operator that a token stands for after the token `before`.  A `+` or `-` counts only
after something that can end an operand. -/
def Token.binary? (before : Option Token) : Token → Option Operator
  | .symbol (.operator op) => if op.isSum && !before.any endsOperand then none else some op
  | _ => none

/-- A slice in three parts. -/
structure Cut where
  left : List Token
  op : Operator
  right : List Token
deriving DecidableEq, Repr

namespace Cut

/-- The slice that was cut. -/
def tokens (c : Cut) : List Token := c.left ++ .symbol (.operator c.op) :: c.right

/-- Puts a token in front. -/
def cons (t : Token) (c : Cut) : Cut := { c with left := t :: c.left }

/-! ### Scans -/

/-- What a scan looks for. -/
structure Search where
  wanted : Operator → Bool
  /-- Pass over operators inside brackets. -/
  outermost : Bool

/-- The operator at a place that the search accepts: `level` brackets are open there, and `before` is
the token in front of it. -/
def Search.hit? (s : Search) (level : Int) (before : Option Token) (t : Token) : Option Operator :=
  (t.binary? before).filter fun op => s.wanted op && (!s.outermost || level == 0)

/-- The cut at the first operator that the search accepts. -/
def first? (s : Search) (level : Int) (before : Option Token) : List Token → Option Cut
  | [] => none
  | t :: ts =>
    match s.hit? level before t with
    | some op => some ⟨[], op, ts⟩
    | none => (first? s (level + t.nestingChange) (some t) ts).map (cons t)

/-- The cut at the last operator that the search accepts. -/
def last? (s : Search) (level : Int) (before : Option Token) : List Token → Option Cut
  | [] => none
  | t :: ts =>
    match last? s (level + t.nestingChange) (some t) ts with
    | some cut => some (cut.cons t)
    | none => (s.hit? level before t).map (⟨[], ·, ts⟩)

/-- The cut of a slice at an operator of one level. -/
def at? (outermost : Bool) (level : Level) (ts : List Token) : Option Cut :=
  match level.side with
  | .first => first? ⟨level.holds, outermost⟩ 0 none ts
  | .last => last? ⟨level.holds, outermost⟩ 0 none ts

/-- The cut of a slice at the operator that is applied last. -/
def find? (p : Precedence) (ts : List Token) : Option Cut :=
  p.levels.findSome? (at? p.mindsBrackets · ts)

/-! ### Nothing is lost -/

@[simp]
theorem tokens_cons (t : Token) (c : Cut) : (c.cons t).tokens = t :: c.tokens := rfl

theorem symbol_of_hit? {s : Search} {level : Int} {before : Option Token} {t : Token} {op : Operator}
    (h : s.hit? level before t = some op) : t = .symbol (.operator op) := by
  obtain ⟨h, -⟩ := Option.filter_eq_some_iff.1 h
  unfold Token.binary? at h
  split at h
  · split at h <;> simp_all
  · simp at h

theorem tokens_first? {s : Search} {level : Int} {before : Option Token} {ts : List Token} {c : Cut}
    (h : first? s level before ts = some c) : c.tokens = ts := by
  induction ts generalizing level before c with
  | nil => simp [first?] at h
  | cons t ts ih =>
    unfold first? at h
    split at h
    · rename_i hit
      obtain rfl := Option.some.inj h
      simp [tokens, symbol_of_hit? hit]
    · obtain ⟨c, hc, rfl⟩ := Option.map_eq_some_iff.1 h
      simp [ih hc]

theorem tokens_last? {s : Search} {level : Int} {before : Option Token} {ts : List Token} {c : Cut}
    (h : last? s level before ts = some c) : c.tokens = ts := by
  induction ts generalizing level before c with
  | nil => simp [last?] at h
  | cons t ts ih =>
    unfold last? at h
    split at h
    · rename_i hc
      obtain rfl := Option.some.inj h
      simp [ih hc]
    · obtain ⟨op, hit, rfl⟩ := Option.map_eq_some_iff.1 h
      simp [tokens, symbol_of_hit? hit]

theorem tokens_find? {p : Precedence} {ts : List Token} {c : Cut} (h : find? p ts = some c) :
    c.tokens = ts := by
  obtain ⟨level, -, h⟩ := List.exists_of_findSome?_eq_some h
  unfold at? at h
  split at h
  · exact tokens_first? h
  · exact tokens_last? h

end Cut

/-! ### Arguments -/

/-- The tokens before the first comma outside brackets, and the groups of tokens after it; `level`
brackets are open at the start. -/
def splitCommas (level : Int) : List Token → List Token × List (List Token)
  | [] => ([], [])
  | t :: ts =>
    let rest := splitCommas (level + t.nestingChange) ts
    if t = .symbol .comma ∧ level = 0 then ([], rest.1 :: rest.2) else (t :: rest.1, rest.2)

/-- The arguments between the brackets of a call.  Nothing at all is no argument; otherwise there is
one more argument than commas, and an argument may be empty. -/
def arguments : List Token → List (List Token)
  | [] => []
  | t :: ts => (splitCommas 0 (t :: ts)).1 :: (splitCommas 0 (t :: ts)).2

theorem length_splitCommas_le (level : Int) (ts : List Token) :
    (splitCommas level ts).1.length ≤ ts.length ∧
      ∀ group ∈ (splitCommas level ts).2, group.length ≤ ts.length := by
  induction ts generalizing level with
  | nil => simp [splitCommas]
  | cons t ts ih =>
    obtain ⟨h₁, h₂⟩ := ih (level + t.nestingChange)
    simp only [splitCommas]
    split
    · refine ⟨by simp, fun group h => ?_⟩
      rcases List.mem_cons.1 h with rfl | h
      · simp only [List.length_cons]
        omega
      · have := h₂ group h
        simp only [List.length_cons]
        omega
    · refine ⟨by simpa using h₁, fun group h => ?_⟩
      have := h₂ group h
      simp only [List.length_cons]
      omega

/-- No argument is longer than what stands between the brackets. -/
theorem length_le_of_mem_arguments {ts arg : List Token} (h : arg ∈ arguments ts) :
    arg.length ≤ ts.length := by
  cases ts with
  | nil => simp [arguments] at h
  | cons t ts =>
    obtain ⟨h₁, h₂⟩ := length_splitCommas_le 0 (t :: ts)
    rcases List.mem_cons.1 h with rfl | h
    · exact h₁
    · exact h₂ arg h

end RuleConditions
