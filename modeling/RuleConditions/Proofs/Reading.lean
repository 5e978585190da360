import RuleConditions.Proofs.Arguments
import RuleConditions.Proofs.Cuts

/-!
# Shapes and the slices they are read from

`Shape.read` gives a shape of a slice, and `Shape.tokens` is the slice of a shape.  Here is the
other direction of `Shape.tokens_read`: where no operator is found, the slice of a well-formed
operand is read as that operand, under either precedence (`Shape.read_tokens`).

`Shape.parts` are the slices whose values a shape is made of.  They are shorter than the slice
(`Shape.length_lt_of_mem_parts`), so what passes from the parts of every slice to the slice holds
of all slices (`Shape.induction`).
-/

namespace RuleConditions.Shape

variable {p : Precedence} {s : Shape} {ts part : List Token}

/-! ### Reading operands -/

/-- An operand with paired brackets around what it encloses. -/
def IsOperand : Shape → Prop
  | .group interior | .call _ interior | .index _ interior => bracketsPair interior
  | .not _ | .negative _ => True
  | .single t => ∀ s, t ≠ .symbol s
  | .empty | .binary .. | .unreadable _ => False

theorem read_cons_of_find?_eq_none {t : Token} (h : Cut.find? p (t :: ts) = none) :
    read p (t :: ts) = (bracketed? p t ts).getD (simple t ts) := by
  rw [read, h]

theorem read_of_find?_eq_some {c : Cut} (h : Cut.find? p ts = some c) :
    read p ts = .binary c.left c.op c.right := by
  cases ts with
  | nil =>
    have := Cut.tokens_find? h
    exact absurd this (by simp [Cut.tokens])
  | cons t ts => rw [read, h]

/-- Only an operator that is found makes an operation of two operands. -/
theorem read_ne_binary (h : Cut.find? p ts = none) (left right : List Token) (op : Operator) :
    read p ts ≠ .binary left op right := by
  cases ts with
  | nil => simp [read]
  | cons t ts =>
    rw [read_cons_of_find?_eq_none h]
    cases hb : bracketed? p t ts with
    | none =>
      rw [Option.getD_none]
      unfold simple
      split <;> simp
    | some s =>
      rw [Option.getD_some]
      rintro rfl
      unfold bracketed? at hb
      split at hb <;> simp at hb

/-- **Operands are read back** where no operator is found. -/
theorem read_tokens (hs : s.IsOperand) (h : Cut.find? p s.tokens = none) : read p s.tokens = s := by
  cases s with
  | empty => exact absurd hs id
  | binary left op right => exact absurd hs id
  | unreadable ts => exact absurd hs id
  | group interior =>
    rw [tokens] at h ⊢
    rw [read_cons_of_find?_eq_none h, bracketed?, enclosed?_append p .round hs]
    rfl
  | call name interior =>
    rw [tokens] at h ⊢
    rw [read_cons_of_find?_eq_none h, bracketed?, enclosed?_append p .round hs]
    rfl
  | index name position =>
    rw [tokens] at h ⊢
    rw [read_cons_of_find?_eq_none h, bracketed?, enclosed?_append p .square hs]
    rfl
  | not operand =>
    rw [tokens] at h ⊢
    rw [read_cons_of_find?_eq_none h]
    rfl
  | negative operand =>
    rw [tokens] at h ⊢
    rw [read_cons_of_find?_eq_none h]
    rfl
  | single t =>
    rw [tokens] at h ⊢
    rw [read_cons_of_find?_eq_none h]
    cases t with
    | symbol s => exact absurd rfl (hs s)
    | _ => rfl

/-- A token that is no symbol is read as itself, under either precedence. -/
theorem read_word {t : Token} (ht : ∀ s, t ≠ .symbol s) (p : Precedence) :
    read p [t] = .single t := by
  cases t with
  | symbol s => exact absurd rfl (ht s)
  | _ => cases p <;> rfl

theorem read_eq (hs : s.IsOperand) (htokens : s.tokens = ts) (h : Cut.find? p ts = none) :
    read p ts = s := by
  subst htokens
  exact read_tokens hs h

/-! ### Parts -/

/-- The slices that are evaluated for the value of a shape, in order. -/
def parts : Shape → List (List Token)
  | .binary left _ right => [left, right]
  | .group interior => [interior]
  | .call _ interior => arguments interior
  | .index _ position => [position]
  | .not operand | .negative operand => [operand]
  | .empty | .single _ | .unreadable _ => []

theorem length_lt_of_mem_parts (h : part ∈ s.parts) : part.length < s.tokens.length := by
  cases s with
  | empty => exact absurd h (by simp [parts])
  | single t => exact absurd h (by simp [parts])
  | unreadable ts => exact absurd h (by simp [parts])
  | binary left op right =>
    simp only [parts, List.mem_cons, List.not_mem_nil, or_false] at h
    rw [tokens, List.length_append, List.length_cons]
    obtain rfl | rfl := h <;> omega
  | call name interior =>
    have := length_le_of_mem_arguments h
    simp only [tokens, List.length_cons, List.length_append]
    omega
  | _ =>
    obtain rfl := List.mem_singleton.mp h
    simp only [tokens, List.length_cons, List.length_append]
    omega

/-- A part stands in the slice: no operand ends in front of it, and no bracket opens behind it. -/
theorem exists_append_of_mem_parts (h : part ∈ s.parts) :
    ∃ front back, s.tokens = front ++ part ++ back ∧
      front.getLast?.any Token.endsOperand = false ∧
      ∀ b, back.head? ≠ some (.symbol (.opening b)) := by
  cases s with
  | empty => exact absurd h (by simp [parts])
  | single t => exact absurd h (by simp [parts])
  | unreadable ts => exact absurd h (by simp [parts])
  | binary left op right =>
    simp only [parts, List.mem_cons, List.not_mem_nil, or_false] at h
    obtain rfl | rfl := h
    · exact ⟨[], .symbol (.operator op) :: right, rfl, rfl, by simp⟩
    · refine ⟨left ++ [.symbol (.operator op)], [], by simp [tokens], ?_, by simp⟩
      simp [Token.endsOperand]
  | group interior =>
    obtain rfl := List.mem_singleton.mp h
    exact ⟨[.symbol (.opening .round)], [.symbol (.closing .round)], rfl, rfl, by simp⟩
  | call name interior =>
    obtain ⟨front, back, hinterior, hfront, hback⟩ := exists_append_of_mem h
    rw [parts, commaSeparated_arguments] at hinterior
    refine ⟨.ident name :: .symbol (.opening .round) :: front, back ++ [.symbol (.closing .round)],
      by simp [tokens, hinterior], ?_, fun b => ?_⟩
    · rw [List.getLast?_cons, List.getLast?_cons]
      cases hlast : front.getLast? with
      | none => rfl
      | some u => rw [hlast] at hfront; exact hfront
    · -- behind an argument there is a comma or the end of the call
      rw [List.head?_append]
      obtain rfl | hcomma := hback
      · simp
      · simp [hcomma]
  | index name position =>
    obtain rfl := List.mem_singleton.mp h
    exact ⟨[.ident name, .symbol (.opening .square)], [.symbol (.closing .square)], rfl, rfl,
      by simp⟩
  | not operand =>
    obtain rfl := List.mem_singleton.mp h
    exact ⟨[.symbol .bang], [], by simp [tokens], rfl, by simp⟩
  | negative operand =>
    obtain rfl := List.mem_singleton.mp h
    exact ⟨[.symbol (.operator (.arithmetic .subtract))], [], by simp [tokens], rfl, by simp⟩

/-- A part stands in the slice in one piece. -/
theorem isInfix_of_mem_parts (h : part ∈ s.parts) : part <:+: s.tokens := by
  obtain ⟨front, back, htokens, -⟩ := exists_append_of_mem_parts h
  exact ⟨front, back, htokens.symm⟩

/-- A slice without binary operators has none in its parts. -/
theorem all_eq_nil_of_mem_parts (h : part ∈ s.parts) (hnil : Cut.all 0 none s.tokens = []) :
    Cut.all 0 none part = [] := by
  obtain ⟨front, back, htokens, hfront, -⟩ := exists_append_of_mem_parts h
  refine List.eq_nil_iff_forall_not_mem.mpr fun q hq => ?_
  have := Cut.mem_all_widen hfront back hq
  rw [← htokens, hnil] at this
  exact absurd this (by simp)

/-- **Induction on slices** along the way they are read. -/
theorem induction (p : Precedence) {motive : List Token → Prop}
    (step : ∀ ts, (∀ part ∈ (read p ts).parts, motive part) → motive ts) (ts : List Token) :
    motive ts := by
  induction hn : ts.length using Nat.strongRecOn generalizing ts with
  | _ n ih =>
    refine step ts fun part hpart => ih part.length ?_ part rfl
    have := length_lt_of_mem_parts hpart
    rwa [tokens_read, hn] at this

end RuleConditions.Shape
