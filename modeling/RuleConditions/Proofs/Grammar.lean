import RuleConditions.Proofs.Reading

/-!
# The grammar of expressions

An expression is a row of operands with binary operators between them, and an operand is a token, a
call, an index or a group, behind any number of `!` and `-`.  `Derives v` says which slices the
grammar makes from a vocabulary `v`: the vocabulary settles which tokens stand for themselves and
which names may be called and indexed.

What the scans of a slice need to know of its derivation is proved here once.  Its brackets pair
(`Derives.bracketsPair`), it ends as an operand does (`Derives.endsOperand`), and each of its
binary operators either stands inside brackets or has an expression on both sides
(`Derives.mem_all`).
-/

namespace RuleConditions

/-! ### Derivations -/

/-- What an expression may be made of. -/
structure Vocabulary where
  /-- The tokens that are operands by themselves; symbols never are. -/
  word : Token → Prop
  /-- The names that may be called with that many arguments. -/
  callable : (name : String) → (count : Nat) → Prop
  /-- The names that may be indexed. -/
  indexable : (name : String) → Prop

/-- The vocabulary without restrictions. -/
def Vocabulary.any : Vocabulary := ⟨fun _ => True, fun _ _ => True, fun _ => True⟩

inductive Nonterminal where
  | expression | operand
deriving DecidableEq, Repr

/-- The slices that the grammar makes from a vocabulary. -/
inductive Derives (v : Vocabulary) : Nonterminal → List Token → Prop
  | operand {ts : List Token} (h : Derives v .operand ts) : Derives v .expression ts
  | binary {left right : List Token} (op : Operator) (hleft : Derives v .expression left)
      (hright : Derives v .operand right) :
      Derives v .expression (left ++ .symbol (.operator op) :: right)
  | not {ts : List Token} (h : Derives v .operand ts) : Derives v .operand (.symbol .bang :: ts)
  | negative {ts : List Token} (h : Derives v .operand ts) :
      Derives v .operand (.symbol (.operator (.arithmetic .subtract)) :: ts)
  | group {ts : List Token} (h : Derives v .expression ts) :
      Derives v .operand (.symbol (.opening .round) :: (ts ++ [.symbol (.closing .round)]))
  | call {name : String} {args : List (List Token)} (hname : v.callable name args.length)
      (hargs : ∀ arg ∈ args, Derives v .expression arg) :
      Derives v .operand (.ident name :: .symbol (.opening .round) ::
        (commaSeparated args ++ [.symbol (.closing .round)]))
  | index {name : String} {ts : List Token} (hname : v.indexable name)
      (h : Derives v .expression ts) :
      Derives v .operand (.ident name :: .symbol (.opening .square) ::
        (ts ++ [.symbol (.closing .square)]))
  | word {t : Token} (hsymbol : ∀ s, t ≠ .symbol s) (hword : v.word t) : Derives v .operand [t]

/-- Whether the head of a shape is in the vocabulary. -/
def Shape.Admitted (v : Vocabulary) : Shape → Prop
  | .call name interior => v.callable name (arguments interior).length
  | .index name _ => v.indexable name
  | .single t => v.word t
  | .empty | .binary .. | .group _ | .not _ | .negative _ | .unreadable _ => True

namespace Derives

variable {v : Vocabulary} {n : Nonterminal} {ts : List Token}

/-- Fewer restrictions make more slices. -/
theorem toAny (h : Derives v n ts) : Derives .any n ts := by
  induction h with
  | operand _ ih => exact .operand ih
  | binary op _ _ ihl ihr => exact .binary op ihl ihr
  | not _ ih => exact .not ih
  | negative _ ih => exact .negative ih
  | group _ ih => exact .group ih
  | call _ _ ih => exact .call trivial ih
  | index _ _ ih => exact .index trivial ih
  | word hsymbol _ => exact .word hsymbol trivial

/-- A row of operands goes on after an operator with another row. -/
theorem append {left right : List Token} (op : Operator) (hleft : Derives v .expression left)
    (hright : Derives v .expression right) :
    Derives v .expression (left ++ .symbol (.operator op) :: right) := by
  generalize hn : Nonterminal.expression = n at hright
  induction hright with
  | operand h => exact .binary op hleft h
  | binary op' _ h ih =>
    have := Derives.binary op' (ih rfl) h
    rwa [List.append_assoc, List.cons_append] at this
  | _ => exact absurd hn (by decide)

/-! ### Brackets and ends -/

theorem bracketsPair (h : Derives v n ts) : bracketsPair ts := by
  induction h with
  | operand _ ih => exact ih
  | binary op _ _ ihl ihr => exact bracketsPair_append ihl (bracketsPair_cons rfl ihr)
  | not _ ih => exact bracketsPair_cons rfl ih
  | negative _ ih => exact bracketsPair_cons rfl ih
  | group _ ih => exact bracketsPair_enclose .round ih
  | call _ _ ih =>
    exact bracketsPair_cons rfl (bracketsPair_enclose .round (bracketsPair_commaSeparated ih))
  | index _ _ ih => exact bracketsPair_cons rfl (bracketsPair_enclose .square ih)
  | word hsymbol _ => exact bracketsPair_cons (Token.nestingChange_of_word hsymbol) rfl

theorem endsOperand_cons {t : Token} (h : ts.getLast?.any Token.endsOperand = true) :
    (t :: ts).getLast?.any Token.endsOperand = true := by
  have hends := any_or_eq_true h (some t)
  rwa [← getLast?_cons_or t ts none, Option.or_none] at hends

theorem endsOperand (h : Derives v n ts) : ts.getLast?.any Token.endsOperand = true := by
  induction h with
  | operand _ ih => exact ih
  | binary op _ _ _ ih => simpa [List.getLast?_append, List.getLast?_cons] using endsOperand_cons ih
  | not _ ih => exact endsOperand_cons ih
  | negative _ ih => exact endsOperand_cons ih
  | group _ _ => simp [List.getLast?_cons, List.getLast?_append, Token.endsOperand]
  | call _ _ _ => simp [List.getLast?_cons, List.getLast?_append, Token.endsOperand]
  | index _ _ _ => simp [List.getLast?_cons, List.getLast?_append, Token.endsOperand]
  | @word t hsymbol _ =>
    cases t with
    | symbol s => exact absurd rfl (hsymbol s)
    | _ => rfl

theorem ne_nil (h : Derives v n ts) : ts ≠ [] := by
  rintro rfl
  exact absurd h.endsOperand (by simp)

/-- The commas of a derivable slice stand inside brackets. -/
theorem commaFree (h : Derives v n ts) : CommaFree ts := by
  induction h with
  | operand _ ih => exact ih
  | binary op hleft _ ihl ihr =>
    exact commaFree_append (nesting_of_bracketsPair hleft.bracketsPair) ihl
      (commaFree_cons (by simp) rfl ihr)
  | not _ ih => exact commaFree_cons (by simp) rfl ih
  | negative _ ih => exact commaFree_cons (by simp) rfl ih
  | group h _ => exact commaFree_enclose .round h.bracketsPair
  | call _ hargs _ =>
    have hpair := bracketsPair_commaSeparated fun arg harg => (hargs arg harg).bracketsPair
    exact commaFree_cons (by simp) rfl (commaFree_enclose .round hpair)
  | index _ h _ => exact commaFree_cons (by simp) rfl (commaFree_enclose .square h.bracketsPair)
  | word hsymbol _ => exact commaFree_singleton (hsymbol .comma)

/-- The arguments of a derivable call are read back. -/
theorem arguments_commaSeparated {args : List (List Token)}
    (h : ∀ arg ∈ args, Derives v .expression arg) : arguments (commaSeparated args) = args := by
  refine RuleConditions.arguments_commaSeparated ?_ fun arg harg =>
    ⟨(h arg harg).bracketsPair, (h arg harg).commaFree⟩
  rintro rfl
  exact (h [] (List.mem_singleton_self _)).ne_nil rfl

/-- **A derivable operand has a shape** whose parts are derivable expressions. -/
theorem exists_shape (h : Derives v .operand ts) :
    ∃ s : Shape, s.IsOperand ∧ s.tokens = ts ∧ s.Admitted v ∧
      ∀ part ∈ s.parts, Derives v .expression part := by
  cases h with
  | @not operand h =>
    exact ⟨.not operand, trivial, rfl, trivial, fun part hpart =>
      List.mem_singleton.mp hpart ▸ .operand h⟩
  | @negative operand h =>
    exact ⟨.negative operand, trivial, rfl, trivial, fun part hpart =>
      List.mem_singleton.mp hpart ▸ .operand h⟩
  | @group interior h =>
    exact ⟨.group interior, h.bracketsPair, rfl, trivial, fun part hpart =>
      List.mem_singleton.mp hpart ▸ h⟩
  | @call name args hname hargs =>
    have hpair := bracketsPair_commaSeparated fun arg harg => (hargs arg harg).bracketsPair
    have hread := arguments_commaSeparated hargs
    refine ⟨.call name (commaSeparated args), hpair, rfl, ?_, ?_⟩
    · rwa [Shape.Admitted, hread]
    · rwa [Shape.parts, hread]
  | @index name position hname h =>
    exact ⟨.index name position, h.bracketsPair, rfl, hname, fun part hpart =>
      List.mem_singleton.mp hpart ▸ h⟩
  | @word t hsymbol hword =>
    exact ⟨.single t, hsymbol, rfl, hword, fun part hpart => absurd hpart (by simp [Shape.parts])⟩

/-! ### The operators of a derivable slice -/

/-- **Each binary operator of a derivable slice** stands inside brackets, or the slice is an
expression and so are both its sides there. -/
theorem mem_all (h : Derives v n ts) {k : Int} {b : Option Token}
    (hb : b.any Token.endsOperand = false) {q : Int × Cut} (hq : q ∈ Cut.all k b ts) :
    (k < q.1 ∧ q.2.InBrackets) ∨
      (q.1 = k ∧ n = .expression ∧
        Derives v .expression q.2.left ∧ Derives v .expression q.2.right) := by
  induction h generalizing k b q with
  | operand _ ih =>
    obtain h | ⟨-, hn, -⟩ := ih hb hq
    · exact .inl h
    · exact absurd hn (by decide)
  | @binary left right op hleft hright ihl ihr =>
    rw [Cut.all_binary (nesting_of_bracketsPair hleft.bracketsPair) hleft.endsOperand] at hq
    simp only [List.mem_append, List.mem_map, List.mem_cons] at hq
    obtain ⟨q, hq, rfl⟩ | rfl | ⟨q, hq, rfl⟩ := hq
    · obtain ⟨hk, hin⟩ | ⟨hk, -, hl, hr⟩ := ihl hb hq
      · exact .inl ⟨hk, hin.widen _ _⟩
      · -- right of an operator of the left side the row goes on over `op`
        exact .inr ⟨hk, rfl, hl, .binary op hr hright⟩
    · exact .inr ⟨rfl, rfl, hleft, .operand hright⟩
    · -- the right side is a single operand, so its operators are inside brackets
      obtain ⟨hk, hin⟩ | ⟨-, hn, -⟩ := ihr rfl hq
      · exact .inl ⟨hk, hin.widen _ _⟩
      · exact absurd hn (by decide)
  | not _ ih =>
    rw [Cut.all_cons rfl, List.mem_map] at hq
    obtain ⟨q, hq, rfl⟩ := hq
    obtain ⟨hk, hin⟩ | ⟨-, hn, -⟩ := ih rfl hq
    · exact .inl ⟨by simpa [Token.nestingChange] using hk, hin.cons _⟩
    · exact absurd hn (by decide)
  | negative _ ih =>
    -- the sign is no cut, since no operand ends in front of it
    rw [Cut.all_cons (by simp [Token.binary?, Operator.isSum, hb]), List.mem_map] at hq
    obtain ⟨q, hq, rfl⟩ := hq
    obtain ⟨hk, hin⟩ | ⟨-, hn, -⟩ := ih rfl hq
    · exact .inl ⟨by simpa [Token.nestingChange] using hk, hin.cons _⟩
    · exact absurd hn (by decide)
  | group h _ => exact .inl (Cut.inBrackets_of_mem_all_enclose .round h.bracketsPair hq)
  | call _ hargs _ =>
    have hpair := bracketsPair_commaSeparated fun arg harg => (hargs arg harg).bracketsPair
    exact .inl (Cut.inBrackets_of_mem_all_ident_enclose _ .round hpair hq)
  | index _ h _ =>
    exact .inl (Cut.inBrackets_of_mem_all_ident_enclose _ .square h.bracketsPair hq)
  | @word t hsymbol _ =>
    cases t with
    | symbol s => exact absurd rfl (hsymbol s)
    | _ => exact absurd hq (by simp [Cut.all, Token.binary?])

/-- An expression with no operator outside brackets is an operand. -/
theorem toOperand (h : Derives v .expression ts) (hnone : ∀ q ∈ Cut.all 0 none ts, q.1 ≠ 0) :
    Derives v .operand ts := by
  cases h with
  | operand h => exact h
  | @binary left right op hleft _ =>
    have hmem :
        (0, ⟨left, op, right⟩) ∈ Cut.all 0 none (left ++ .symbol (.operator op) :: right) := by
      rw [Cut.all_binary (nesting_of_bracketsPair hleft.bracketsPair) hleft.endsOperand]
      simp
    exact absurd rfl (hnone _ hmem)

/-- At an operator outside brackets an expression falls into two expressions. -/
theorem sides (h : Derives v .expression ts) {c : Cut} (hc : (0, c) ∈ Cut.all 0 none ts) :
    Derives v .expression c.left ∧ Derives v .expression c.right := by
  obtain ⟨hk, -⟩ | ⟨-, -, hsides⟩ := h.mem_all rfl hc
  · exact absurd hk (by simp)
  · exact hsides

/-- Counting brackets finds the operators that stand inside a pair of them. -/
theorem outermost_iff (h : Derives v n ts) :
    (∀ q ∈ Cut.all 0 none ts, q.1 = 0) ↔
      ∀ c : Cut, c.tokens = ts → c.IsBinary → ¬c.InBrackets := by
  constructor
  · rintro hzero c rfl hbinary hin
    have hc := hzero (nesting c.left, c) (Cut.mem_all_zero_iff.mpr ⟨rfl, hbinary, rfl⟩)
    have := Cut.nesting_pos_of_inBrackets hin h.bracketsPair
    simp only at hc
    omega
  · rintro hnone ⟨k, c⟩ hq
    obtain ⟨htokens, hbinary, -⟩ := Cut.mem_all_zero_iff.mp hq
    obtain ⟨-, hin⟩ | ⟨hk, -⟩ := h.mem_all rfl hq
    · exact absurd hin (hnone c htokens hbinary)
    · exact hk

end Derives

end RuleConditions
