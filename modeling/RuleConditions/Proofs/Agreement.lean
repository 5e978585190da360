import RuleConditions.Proofs.Acceptance

/-!
# Where the precedences agree

The two precedences cut a slice at different operators only if it has several between which they
choose differently: an `&&` after an `||`, two sums with no looser operator between them, two
products likewise, or any operator inside brackets.  A slice without these is `Unambiguous`.

On the row of operators of a slice this is `Clear`, which every part of the row inherits
(`Clear.of_infix`), and which makes both precedences choose the same cut (`findSome?_pick_legacy`).
So an unambiguous slice is read in the same way at every depth, and the two runs are the same
(`evaluate_legacy_eq`).
-/

namespace RuleConditions

variable {ts : List Token} {ops run : List Operator} {cuts : List Cut}

/-! ### Rows of operators -/

/-- Whether an operator binds more loosely than a sum. -/
def Operator.delimitsSums (op : Operator) : Bool := op.isLogical || op.isComparison

/-- Whether an operator binds more loosely than a product. -/
def Operator.delimitsProducts (op : Operator) : Bool := op.delimitsSums || op.isSum

/-- A slice that both precedences group in the same way. -/
structure Unambiguous (ts : List Token) : Prop where
  /-- No binary operator stands inside brackets. -/
  unnested : ∀ c : Cut, c.tokens = ts → c.IsBinary → ¬c.InBrackets
  /-- No `&&` stands to the right of an `||`. -/
  ands_first : (operators ts).Pairwise fun a b => a = .logical .or → b ≠ .logical .and
  /-- Between logical operators and comparisons there is at most one sum. -/
  one_sum : ∀ run ∈ (operators ts).splitOnP Operator.delimitsSums, run.countP Operator.isSum ≤ 1
  /-- Between logical operators, comparisons and sums there is at most one product. -/
  one_product : ∀ run ∈ (operators ts).splitOnP Operator.delimitsProducts,
    run.countP Operator.isProduct ≤ 1

/-- A row of operators that both precedences group in the same way: whichever operators in a row are
looked at, they hold at most one sum if none delimits sums, and at most one product if none delimits
products. -/
structure Clear (ops : List Operator) : Prop where
  ands_first : ops.Pairwise fun a b => a = .logical .or → b ≠ .logical .and
  one_sum : ∀ run, run <:+: ops → (∀ op ∈ run, op.delimitsSums = false) →
    run.countP Operator.isSum ≤ 1
  one_product : ∀ run, run <:+: ops → (∀ op ∈ run, op.delimitsProducts = false) →
    run.countP Operator.isProduct ≤ 1

/-- Every part of a clear row is clear. -/
theorem Clear.of_infix (h : Clear ops) (hrun : run <:+: ops) : Clear run where
  ands_first := h.ands_first.sublist hrun.sublist
  one_sum := fun part hpart => h.one_sum part (hpart.trans hrun)
  one_product := fun part hpart => h.one_product part (hpart.trans hrun)

section Runs

variable {α : Type} {p : α → Bool} {xs part : List α}

/-- A beginning of a list without separators lies in the first run. -/
theorem exists_splitOnP_eq_cons (h : part <+: xs) (hp : ∀ x ∈ part, p x = false) :
    ∃ first rest, xs.splitOnP p = first :: rest ∧ part <+: first := by
  induction xs generalizing part with
  | nil =>
    obtain rfl := List.prefix_nil.mp h
    exact ⟨[], [], List.splitOnP_nil, List.prefix_rfl⟩
  | cons x xs ih =>
    obtain rfl | ⟨part, rfl, hpart⟩ := List.prefix_cons_iff.mp h
    · obtain ⟨first, rest, hfirst⟩ := List.exists_cons_of_ne_nil (List.splitOnP_ne_nil p (x :: xs))
      exact ⟨first, rest, hfirst, List.nil_prefix⟩
    · rw [List.forall_mem_cons] at hp
      obtain ⟨first, rest, hfirst, hprefix⟩ := ih hpart hp.2
      refine ⟨x :: first, rest, ?_, List.cons_prefix_cons.mpr ⟨rfl, hprefix⟩⟩
      rw [List.splitOnP_cons_eq_if_modifyHead, hp.1, hfirst]
      rfl

/-- Elements in a row without separators lie in one of the runs. -/
theorem exists_mem_splitOnP (h : part <:+: xs) (hp : ∀ x ∈ part, p x = false) :
    ∃ run ∈ xs.splitOnP p, part <:+: run := by
  induction xs with
  | nil =>
    obtain rfl := List.infix_nil.mp h
    exact ⟨[], List.mem_singleton_self [], List.infix_rfl⟩
  | cons x xs ih =>
    obtain hprefix | hinfix := List.infix_cons_iff.mp h
    · obtain ⟨first, rest, hfirst, hpart⟩ := exists_splitOnP_eq_cons hprefix hp
      exact ⟨first, by rw [hfirst]; exact List.mem_cons_self .., hpart.isInfix⟩
    · obtain ⟨run, hrun, hpart⟩ := ih hinfix
      rw [List.splitOnP_cons_eq_if_modifyHead]
      split
      · exact ⟨run, List.mem_cons_of_mem _ hrun, hpart⟩
      · obtain ⟨first, rest, hfirst⟩ := List.exists_cons_of_ne_nil (List.splitOnP_ne_nil p xs)
        rw [hfirst, List.mem_cons] at hrun
        rw [hfirst, List.modifyHead_cons]
        obtain rfl | hrest := hrun
        · exact ⟨x :: run, List.mem_cons_self .., hpart.trans (List.infix_cons List.infix_rfl)⟩
        · exact ⟨run, List.mem_cons_of_mem _ hrest, hpart⟩

/-- With at most one hit the search from the left and that from the right find the same. -/
theorem find?_reverse_of_countP_le_one (h : xs.countP p ≤ 1) : xs.reverse.find? p = xs.find? p := by
  rw [← List.head?_filter, ← List.head?_filter, List.filter_reverse]
  rw [List.countP_eq_length_filter] at h
  match hhits : xs.filter p with
  | [] => rfl
  | [x] => rfl
  | _ :: _ :: _ =>
    rw [hhits] at h
    simp at h

end Runs

theorem Unambiguous.clear (h : Unambiguous ts) : Clear (operators ts) where
  ands_first := h.ands_first
  one_sum := fun part hpart hp => by
    obtain ⟨run, hrun, hinfix⟩ := exists_mem_splitOnP hpart hp
    exact Nat.le_trans hinfix.sublist.countP_le (h.one_sum run hrun)
  one_product := fun part hpart hp => by
    obtain ⟨run, hrun, hinfix⟩ := exists_mem_splitOnP hpart hp
    exact Nat.le_trans hinfix.sublist.countP_le (h.one_product run hrun)

/-! ### The same cut -/

/-- Where no `&&` follows an `||`, the last logical operator is the last `||`, or the last `&&` if
there is no `||`. -/
theorem pick_logical
    (h : (cuts.map Cut.op).Pairwise fun a b => a = .logical .or → b ≠ .logical .and) :
    Cut.pick ⟨Operator.isLogical, .last⟩ cuts =
      (Cut.pick ⟨(· == .logical .or), .last⟩ cuts).or
        (Cut.pick ⟨(· == .logical .and), .last⟩ cuts) := by
  unfold Cut.pick
  rw [← List.reverse_reverse cuts, List.map_reverse, List.pairwise_reverse] at h
  generalize cuts.reverse = cuts at h
  simp only
  induction cuts with
  | nil => rfl
  | cons c cuts ih =>
    rw [List.map_cons, List.pairwise_cons] at h
    simp only [List.find?_cons]
    cases hop : c.op with
    | logical op =>
      cases op with
      | or => rfl
      | and =>
        -- in the reversed row every `||` stands in front of the first `&&`
        have hnone : cuts.find? (fun c => c.op == .logical .or) = none := by
          refine List.find?_eq_none.mpr fun d hd => ?_
          have := h.1 d.op (List.mem_map_of_mem hd)
          simpa [hop] using this
        rw [hnone]
        rfl
    | comparison op => exact ih h.2
    | arithmetic op => exact ih h.2

theorem pick_first_eq_pick_last {holds : Operator → Bool} (h : (cuts.map Cut.op).countP holds ≤ 1) :
    Cut.pick ⟨holds, .first⟩ cuts = Cut.pick ⟨holds, .last⟩ cuts := by
  rw [List.countP_map] at h
  exact (find?_reverse_of_countP_le_one h).symm

theorem or_congr_right {α : Type} {a b b' : Option α} (h : a = none → b = b') :
    a.or b = a.or b' := by
  cases a with
  | none => exact h rfl
  | some x => rfl

/-- **Among the cuts of a clear row** both precedences choose the same one. -/
theorem findSome?_pick_legacy (h : Clear (cuts.map Cut.op)) :
    Precedence.legacy.levels.findSome? (Cut.pick · cuts) =
      Precedence.conventional.levels.findSome? (Cut.pick · cuts) := by
  have hcons (level : Level) (levels : List Level) :
      (level :: levels).findSome? (Cut.pick · cuts) =
        (Cut.pick level cuts).or (levels.findSome? (Cut.pick · cuts)) := by
    rw [List.findSome?_cons]
    cases Cut.pick level cuts <;> rfl
  simp only [Precedence.levels, hcons, pick_logical h.ands_first, Option.or_assoc]
  -- the levels of sums and products are reached only where no looser operator is left
  refine or_congr_right fun hors => or_congr_right fun hands => ?_
  refine or_congr_right fun hcomparisons => ?_
  have hsums : ∀ op ∈ cuts.map Cut.op, op.delimitsSums = false := by
    intro op hop
    obtain ⟨c, hc, rfl⟩ := List.mem_map.mp hop
    have hor := Cut.pick_eq_none_iff.mp hors c hc
    have hand := Cut.pick_eq_none_iff.mp hands c hc
    have hcomparison := Cut.pick_eq_none_iff.mp hcomparisons c hc
    cases hop : c.op with
    | logical op =>
      rw [hop] at hor hand
      cases op with
      | or => exact absurd hor (by decide)
      | and => exact absurd hand (by decide)
    | comparison op =>
      rw [hop] at hcomparison
      exact absurd hcomparison (by simp [Operator.isComparison])
    | arithmetic op => rfl
  rw [pick_first_eq_pick_last (h.one_sum _ List.infix_rfl hsums)]
  refine or_congr_right fun hnone => ?_
  have hproducts : ∀ op ∈ cuts.map Cut.op, op.delimitsProducts = false := by
    intro op hop
    have hdelimits := hsums op hop
    obtain ⟨c, hc, rfl⟩ := List.mem_map.mp hop
    rw [Operator.delimitsProducts, hdelimits]
    exact Cut.pick_eq_none_iff.mp hnone c hc
  rw [pick_first_eq_pick_last (h.one_product _ List.infix_rfl hproducts)]

/-- Where no operator stands inside brackets, a clear row is cut in the same way. -/
theorem find?_legacy_eq (houtermost : ∀ q ∈ Cut.all 0 none ts, q.1 = 0) (h : Clear (operators ts)) :
    Cut.find? .legacy ts = Cut.find? .conventional ts := by
  have hrow : ((Cut.all 0 none ts).map (·.2)).map Cut.op = operators ts := by
    rw [List.map_map]
    rfl
  rw [Cut.find?_eq, Cut.find?_eq, Cut.candidates_eq_of_outermost houtermost,
    Cut.candidates_eq_of_outermost houtermost]
  exact findSome?_pick_legacy (by rwa [hrow])

/-! ### The same run -/

variable {bindings : Bindings} {part : List Token}

/-- **An accepted slice with a clear row is read in the same way** under both precedences. -/
theorem Accepted.read_legacy_eq (h : Accepted .legacy bindings ts) (hclear : Clear (operators ts)) :
    Shape.read .legacy ts = Shape.read .conventional ts := by
  have hfind := find?_legacy_eq (h.outermost rfl) hclear
  cases hc : Cut.find? .conventional ts with
  | some c => rw [Shape.read_of_find?_eq_some hc, Shape.read_of_find?_eq_some (hfind.trans hc)]
  | none =>
    -- an operand is read in one way only
    have hs := (h.isOperand_read (hfind.trans hc)).1
    exact (Shape.read_eq hs (Shape.tokens_read .legacy ts) hc).symm

/-- The operators of a part are among those of the slice, in a row. -/
theorem isInfix_operators (hpart : part ∈ (Shape.read .legacy ts).parts) :
    operators part <:+: operators ts := by
  cases hfind : Cut.find? .legacy ts with
  | some c =>
    -- the row is that of the left side, the operator at the cut and the row of the right side
    have hbinary := (Cut.mem_candidates_iff.mp (Cut.mem_candidates_of_find? hfind)).2.1
    have hrow : operators c.tokens = operators c.left ++ c.op :: operators c.right :=
      operators_binary hbinary
    rw [Cut.tokens_find? hfind] at hrow
    rw [Shape.read_of_find?_eq_some hfind] at hpart
    simp only [Shape.parts, List.mem_cons, List.not_mem_nil, or_false] at hpart
    rw [hrow]
    obtain rfl | rfl := hpart
    · exact (List.prefix_append _ _).isInfix
    · exact ((List.suffix_cons c.op _).trans (List.suffix_append _ _)).isInfix
  | none =>
    -- the parts of an operand have no operators at all
    have hnil := Cut.all_eq_nil_of_find?_eq_none rfl hfind
    rw [← Shape.tokens_read .legacy ts] at hnil
    rw [operators, Shape.all_eq_nil_of_mem_parts hpart hnil]
    exact List.nil_infix

/-- **Accepted slices with a clear row run in the same way** under both precedences. -/
theorem Accepted.evaluate_legacy_eq (h : Accepted .legacy bindings ts)
    (hclear : Clear (operators ts)) (maxDepth : Nat) :
    evaluate ⟨bindings, .legacy, maxDepth⟩ ts =
      evaluate ⟨bindings, .conventional, maxDepth⟩ ts := by
  induction ts using Shape.induction .legacy with
  | step ts ih =>
    have hparts : ∀ part ∈ (Shape.read .legacy ts).parts,
        evaluate ⟨bindings, .legacy, maxDepth⟩ part =
          evaluate ⟨bindings, .conventional, maxDepth⟩ part := by
      intro part hpart
      exact ih part hpart (h.parts hpart) (hclear.of_infix (isInfix_operators hpart))
    have hrun := Shape.run_congr bindings hparts
    rw [h.read_legacy_eq hclear] at hrun
    rw [evaluate_eq, evaluate_eq, h.read_legacy_eq hclear, hrun]
    rfl

/-- **The precedences agree on unambiguous slices**: they give the same values, and where there is
one they split at the same operators in the same order. -/
theorem ok_legacy_iff_of_unambiguous (bindings : Bindings) (maxDepth : Nat) (ts : List Token)
    (depth : Nat) (h : Unambiguous ts) :
    (∀ v, (evaluate ⟨bindings, .legacy, maxDepth⟩ ts depth).outcome = .ok v ↔
      (evaluate ⟨bindings, .conventional, maxDepth⟩ ts depth).outcome = .ok v) ∧
    ∀ v, (evaluate ⟨bindings, .conventional, maxDepth⟩ ts depth).outcome = .ok v →
      (evaluate ⟨bindings, .legacy, maxDepth⟩ ts depth).splits =
        (evaluate ⟨bindings, .conventional, maxDepth⟩ ts depth).splits := by
  have hsame (haccepted : Accepted .legacy bindings ts) :=
    haccepted.evaluate_legacy_eq h.clear maxDepth
  have hconventional {v : Value}
      (hv : (evaluate ⟨bindings, .conventional, maxDepth⟩ ts depth).outcome = .ok v) :
      Accepted .legacy bindings ts := by
    -- what the conventional precedence allows inside brackets is excluded by `unnested`
    have hderives := (accepted_of_ok ⟨bindings, .conventional, maxDepth⟩ hv).derives
    exact ⟨hderives, fun _ => hderives.outermost_iff.mpr h.unnested⟩
  refine ⟨fun v => ⟨fun hv => ?_, fun hv => ?_⟩, fun v hv => ?_⟩
  · rwa [← hsame (accepted_of_ok ⟨bindings, .legacy, maxDepth⟩ hv)]
  · rwa [hsame (hconventional hv)]
  · rw [hsame (hconventional hv)]

/-- Operators of every level, with a call and a group between them. -/
theorem ok_legacy_iff_of_unambiguous_of_levels :
    let bindings : Bindings := .ofList [("a", .bool true)]
    let ts : List Token := [.ident "max", .symbol (.opening .round), .ident "a", .symbol .comma,
      .number "2", .symbol (.closing .round), .symbol (.operator (.arithmetic .subtract)),
      .number "1", .symbol (.operator (.comparison .greater)), .number "3",
      .symbol (.operator (.arithmetic .multiply)), .ident "a", .symbol (.operator (.logical .and)),
      .symbol .bang, .symbol (.opening .round), .ident "a", .symbol (.closing .round),
      .symbol (.operator (.logical .or)), .ident "a"]
    Unambiguous ts ∧
      (∃ v, (evaluate ⟨bindings, .legacy, 64⟩ ts 0).outcome = .ok v ∧
        (evaluate ⟨bindings, .conventional, 64⟩ ts 0).outcome = .ok v) ∧
      (evaluate ⟨bindings, .legacy, 64⟩ ts 0).splits =
        (evaluate ⟨bindings, .conventional, 64⟩ ts 0).splits := by
  intro bindings ts
  have hname : Derives (.known bindings) .operand [.ident "a"] := .word (by simp) ⟨_, rfl⟩
  have hone : Derives (.known bindings) .operand [.number "1"] := .word (by simp) ⟨_, rfl⟩
  have htwo : Derives (.known bindings) .operand [.number "2"] := .word (by simp) ⟨_, rfl⟩
  have hthree : Derives (.known bindings) .operand [.number "3"] := .word (by simp) ⟨_, rfl⟩
  have hcall : Derives (.known bindings) .operand (.ident "max" :: .symbol (.opening .round) ::
      (commaSeparated [[.ident "a"], [.number "2"]] ++ [.symbol (.closing .round)])) :=
    .call ⟨_, rfl, rfl⟩ (by simp [hname.operand, htwo.operand])
  have hsum := Derives.binary (.arithmetic .subtract) (.operand hcall) hone
  have hproduct := Derives.binary (.arithmetic .multiply) (.operand hthree) hname
  have hcomparison := hsum.append (.comparison .greater) hproduct
  have hand := hcomparison.binary (.logical .and) (.not (.group (.operand hname)))
  have hderives : Derives (.known bindings) .expression ts := hand.binary (.logical .or) hname
  have hunambiguous : Unambiguous ts :=
    ⟨hderives.outermost_iff.mp (by decide), by decide, by decide, by decide⟩
  have haccepted : Accepted .legacy bindings ts :=
    ⟨hderives, fun _ => hderives.outermost_iff.mpr hunambiguous.unnested⟩
  have hdepth := failsOnly_evaluate ⟨bindings, .legacy, 64⟩ ts 0 (by decide)
  obtain ⟨v, hv⟩ := (accepted_iff hdepth).mpr haccepted
  obtain ⟨hok, hsplits⟩ := ok_legacy_iff_of_unambiguous bindings 64 ts 0 hunambiguous
  exact ⟨hunambiguous, ⟨v, hv, (hok v).mp hv⟩, hsplits v ((hok v).mp hv)⟩

end RuleConditions
