import RuleConditions.Proofs.Acceptance

/-!
# Splits in order

An evaluation records every operator it splits a slice on.  `SplitsOf` says which record belongs to
a slice: first the split of the slice itself, if it is cut at an operator, and then the splits of
its parts in order, up to and including the first part that fails.  The record of an evaluation is
of this kind (`splitsOf_evaluate`), and no other is (`SplitsOf.unique`).

All else is proved from the relation, by induction along the slices.  Every split is one of a slice
inside the slice that is evaluated (`SplitsOf.exists_slice`).  The operators of a slice are its own
and those of its parts (`Shape.operators_perm`), so no operator is applied twice
(`SplitsOf.countP_le`), and where there is a value every operator is applied (`SplitsOf.perm`).
-/

namespace RuleConditions

open Evaluation

variable {α β γ : Type} {scope : Scope} {bindings : Bindings} {p : Precedence} {s : Shape}
  {ts part : List Token} {depth : Nat}

/-! ### The splits of a slice -/

/-- Whether a split is one of that slice. -/
structure Split.IsOf (split : Split) (slice : List Token) : Prop where
  length : split.length = slice.length
  position : split.position < split.length
  op : slice[split.position]? = some (.symbol (.operator split.op))

namespace Shape

/-- The split of a slice of that shape. -/
def split? : Shape → Option Split
  | .binary left op right => some ⟨op, left.length, (Shape.binary left op right).tokens.length⟩
  | .empty | .group _ | .call .. | .index .. | .not _ | .negative _ | .single _
  | .unreadable _ => none

/-- Whether the parts of a shape are evaluated.  The function of a call and the array of an index
are looked up before. -/
def opens (bindings : Bindings) : Shape → Bool
  | .call name _ => (functionOfName name).isOk
  | .index name _ => (itemsOfName bindings name).isOk
  | .empty | .binary .. | .group _ | .not _ | .negative _ | .single _ | .unreadable _ => true

end Shape

mutual

/-- The splits of a slice that is evaluated from a depth, in order. -/
inductive SplitsOf (scope : Scope) : (depth : Nat) → (ts : List Token) → List Split → Prop
  /-- A slice that is too deep is not split. -/
  | refused {depth : Nat} (ts : List Token) (h : scope.depthLimit < depth + 1) :
      SplitsOf scope depth ts []
  /-- Nothing is split behind a name that cannot be called or indexed. -/
  | closed {depth : Nat} {ts : List Token}
      (h : (Shape.read scope.precedence ts).opens scope.bindings = false) :
      SplitsOf scope depth ts []
  /-- The split of the slice comes before those of its parts. -/
  | entered {depth : Nat} {ts : List Token} {splits : List Split}
      (hdepth : depth + 1 ≤ scope.depthLimit)
      (hopens : (Shape.read scope.precedence ts).opens scope.bindings = true)
      (h : SplitsInOrder scope (depth + 1) (Shape.read scope.precedence ts).parts splits) :
      SplitsOf scope depth ts ((Shape.read scope.precedence ts).split?.toList ++ splits)

/-- The splits of several slices that are evaluated one after the other, up to the first failure. -/
inductive SplitsInOrder (scope : Scope) :
    (depth : Nat) → (parts : List (List Token)) → List Split → Prop
  | nil (depth : Nat) : SplitsInOrder scope depth [] []
  /-- Nothing is split behind a part that fails. -/
  | fails {depth : Nat} {part : List Token} {splits : List Split} {e : RuleError}
      (parts : List (List Token)) (herror : (evaluate scope part depth).outcome = .error e)
      (h : SplitsOf scope depth part splits) : SplitsInOrder scope depth (part :: parts) splits
  | cons {depth : Nat} {part : List Token} {parts : List (List Token)} {splits rest : List Split}
      {v : Value} (hok : (evaluate scope part depth).outcome = .ok v)
      (h : SplitsOf scope depth part splits) (hrest : SplitsInOrder scope depth parts rest) :
      SplitsInOrder scope depth (part :: parts) (splits ++ rest)

end

/-! ### There is one record -/

mutual

/-- **A slice has one record of splits.** -/
theorem SplitsOf.unique {depth : Nat} {ts : List Token} {splits splits' : List Split}
    (h : SplitsOf scope depth ts splits) (h' : SplitsOf scope depth ts splits') :
    splits = splits' := by
  match h with
  | .refused _ hdeep =>
    cases h' with
    | refused _ _ => rfl
    | closed _ => rfl
    | entered hdepth _ _ => omega
  | .closed hclosed =>
    cases h' with
    | refused _ _ => rfl
    | closed _ => rfl
    | entered _ hopens _ => exact absurd (hclosed.symm.trans hopens) (by decide)
  | .entered hdepth hopens hparts =>
    cases h' with
    | refused _ hdeep => omega
    | closed hclosed => exact absurd (hclosed.symm.trans hopens) (by decide)
    | entered _ _ hparts' => rw [hparts.unique hparts']
termination_by structural h

theorem SplitsInOrder.unique {depth : Nat} {parts : List (List Token)} {splits splits' : List Split}
    (h : SplitsInOrder scope depth parts splits) (h' : SplitsInOrder scope depth parts splits') :
    splits = splits' := by
  match h with
  | .nil _ =>
    cases h'
    rfl
  | .fails _ herror hpart =>
    cases h' with
    | fails _ _ hpart' => exact hpart.unique hpart'
    | cons hok _ _ => exact absurd (herror.symm.trans hok) (by simp)
  | .cons hok hpart hrest =>
    cases h' with
    | fails _ herror _ => exact absurd (herror.symm.trans hok) (by simp)
    | cons _ hpart' hrest' => rw [hpart.unique hpart', hrest.unique hrest']
termination_by structural h

end

/-! ### It is that of the evaluation -/

namespace Evaluation

theorem splits_andThen_of_ok {first : Evaluation α} {a : α} (h : Restores first)
    (ha : (first depth).outcome = .ok a) (second : α → Evaluation β) :
    (andThen first second depth).splits = (first depth).splits ++ (second a depth).splits := by
  rw [andThen_of_ok ha, h depth, Run.splits, List.filterMap_append]
  rfl

theorem splits_andThen_of_error {first : Evaluation α} {e : RuleError}
    (he : (first depth).outcome = .error e) (second : α → Evaluation β) :
    (andThen first second depth).splits = (first depth).splits := by
  rw [andThen_of_error he]
  rfl

/-- What becomes of a result splits nothing. -/
theorem splits_andThen_ofExcept (first : Evaluation α) (f : α → Except RuleError β) (depth : Nat) :
    (andThen first (fun a => ofExcept (f a)) depth).splits = (first depth).splits := by
  cases houtcome : (first depth).outcome with
  | error e => rw [splits_andThen_of_error houtcome]
  | ok a =>
    rw [andThen_of_ok houtcome]
    simp [Run.splits, ofExcept]

theorem splits_map (first : Evaluation α) (f : α → β) (depth : Nat) :
    (andThen first (fun a => done (f a)) depth).splits = (first depth).splits :=
  splits_andThen_ofExcept first (fun a => .ok (f a)) depth

theorem andThen_map (first : Evaluation α) (f : α → β) (second : β → Evaluation γ) :
    andThen (andThen first fun a => done (f a)) second = andThen first fun a => second (f a) := by
  funext depth
  cases houtcome : (first depth).outcome with
  | error e =>
    have hmap := andThen_of_error houtcome fun a => done (f a)
    rw [andThen_of_error houtcome, andThen_of_error (e := e) (by rw [hmap]), hmap]
  | ok a =>
    have hmap := andThen_of_ok houtcome fun a => done (f a)
    have hok : (andThen first (fun a => done (f a)) depth).outcome = .ok (f a) := by
      rw [hmap]
      rfl
    rw [andThen_of_ok houtcome, andThen_of_ok hok, hmap]
    simp [done]

theorem splits_nested {limit : Nat} {slice : List Token} {inside : Evaluation α}
    (h : depth + 1 ≤ limit) :
    (nested limit slice inside depth).splits = (inside (depth + 1)).splits := by
  rw [nested, if_neg (by omega)]
  change List.filterMap Event.split? (_ :: (_ ++ [_])) = _
  rw [List.filterMap_cons_none rfl, List.filterMap_append]
  exact List.append_nil _

end Evaluation

/-- **A part and what is evaluated after it.** -/
theorem splitsInOrder_andThen {parts : List (List Token)} {second : Value → Evaluation β}
    (h : SplitsOf scope depth part (evaluate scope part depth).splits)
    (hsecond : ∀ v, SplitsInOrder scope depth parts (second v depth).splits) :
    SplitsInOrder scope depth (part :: parts)
      (andThen (evaluate scope part) second depth).splits := by
  cases houtcome : (evaluate scope part depth).outcome with
  | error e =>
    rw [splits_andThen_of_error houtcome]
    exact .fails parts houtcome h
  | ok v =>
    rw [splits_andThen_of_ok (restores_evaluate scope part) houtcome]
    exact .cons houtcome h (hsecond v)

theorem splitsInOrder_map (h : SplitsOf scope depth part (evaluate scope part depth).splits)
    (f : Value → β) :
    SplitsInOrder scope depth [part]
      (andThen (evaluate scope part) (fun v => done (f v)) depth).splits :=
  splitsInOrder_andThen h fun _ => .nil depth

theorem splitsInOrder_each {parts : List (List Token)} (f : Value → β)
    (h : ∀ part ∈ parts, SplitsOf scope depth part (evaluate scope part depth).splits) :
    SplitsInOrder scope depth parts
      (each parts (fun arg _ => andThen (evaluate scope arg) fun v => done (f v)) depth).splits := by
  induction parts with
  | nil => exact .nil depth
  | cons part parts ih =>
    have hrest := ih fun other hother => h other (List.mem_cons_of_mem _ hother)
    rw [each, andThen_map]
    refine splitsInOrder_andThen (h part (List.mem_cons_self ..)) fun v => ?_
    rw [splits_map]
    exact hrest

/-- The rule for a shape splits the slice and then its parts in order. -/
theorem Shape.exists_splits_run (hopens : s.opens scope.bindings = true)
    (hparts : ∀ part ∈ s.parts, SplitsOf scope depth part (evaluate scope part depth).splits) :
    ∃ splits, (s.run scope.bindings (evaluate scope) depth).splits = s.split?.toList ++ splits ∧
      SplitsInOrder scope depth s.parts splits := by
  cases s with
  | empty => exact ⟨[], rfl, .nil depth⟩
  | unreadable slice => exact ⟨[], rfl, .nil depth⟩
  | single t => exact ⟨[], rfl, .nil depth⟩
  | group interior =>
    have h := splitsInOrder_map (hparts interior (by simp [parts])) id
    rw [splits_map] at h
    exact ⟨_, rfl, h⟩
  | not operand => exact ⟨_, rfl, splitsInOrder_map (hparts operand (by simp [parts])) _⟩
  | negative operand => exact ⟨_, rfl, splitsInOrder_map (hparts operand (by simp [parts])) _⟩
  | binary left op right =>
    refine ⟨_, rfl, ?_⟩
    refine splitsInOrder_andThen (hparts left (by simp [parts])) fun a => ?_
    exact splitsInOrder_map (hparts right (by simp [parts])) (op.apply a)
  | index name position =>
    cases hitems : itemsOfName scope.bindings name with
    | error e => exact absurd hopens (by simp [opens, hitems, Except.isOk, Except.toBool])
    | ok items =>
      have h := splitsInOrder_map (hparts position (by simp [parts])) fun value =>
        itemAt items value.toNumber
      refine ⟨_, ?_, h⟩
      rw [run, hitems]
      rfl
  | call name interior =>
    cases hname : functionOfName name with
    | error e => exact absurd hopens (by simp [opens, hname, Except.isOk, Except.toBool])
    | ok f =>
      refine ⟨_, ?_, splitsInOrder_each Value.toNumber hparts⟩
      rw [run, hname]
      exact splits_andThen_ofExcept _ (valueOfCall f) depth

/-- Nothing happens in a slice whose parts are not evaluated. -/
theorem Shape.splits_run_of_closed {inner : List Token → Evaluation Value}
    (hclosed : s.opens bindings = false) : (s.run bindings inner depth).splits = [] := by
  cases s with
  | call name interior =>
    cases hname : functionOfName name with
    | ok f => exact absurd hclosed (by simp [opens, hname, Except.isOk, Except.toBool])
    | error e =>
      rw [run, hname]
      rfl
  | index name position =>
    cases hitems : itemsOfName bindings name with
    | ok items => exact absurd hclosed (by simp [opens, hitems, Except.isOk, Except.toBool])
    | error e =>
      rw [run, hitems]
      rfl
  | _ => exact absurd hclosed (by simp [opens])

/-- **The record of an evaluation** is that of the slice. -/
theorem splitsOf_evaluate (scope : Scope) (ts : List Token) (depth : Nat) :
    SplitsOf scope depth ts (evaluate scope ts depth).splits := by
  induction ts using Shape.induction scope.precedence generalizing depth with
  | step ts ih =>
    rw [evaluate_eq]
    by_cases hdepth : depth + 1 ≤ scope.depthLimit
    · rw [splits_nested hdepth]
      cases hopens : (Shape.read scope.precedence ts).opens scope.bindings with
      | false =>
        rw [Shape.splits_run_of_closed hopens]
        exact .closed hopens
      | true =>
        obtain ⟨splits, hrun, hparts⟩ :=
          Shape.exists_splits_run hopens fun part hpart => ih part hpart (depth + 1)
        rw [hrun]
        exact .entered hdepth hopens hparts
    · have hdeep : scope.depthLimit < depth + 1 := by omega
      rw [nested, if_pos hdeep]
      exact .refused ts hdeep

theorem splitsOf_iff {splits : List Split} :
    SplitsOf scope depth ts splits ↔ splits = (evaluate scope ts depth).splits := by
  constructor
  · exact fun h => h.unique (splitsOf_evaluate scope ts depth)
  · rintro rfl
    exact splitsOf_evaluate scope ts depth

/-! ### Each split is one of a slice inside -/

theorem Shape.isOf_of_split? {split : Split} (h : s.split? = some split) : split.IsOf s.tokens := by
  cases s with
  | binary left op right =>
    obtain rfl := Option.some.inj h
    refine ⟨rfl, ?_, ?_⟩
    · simp only [tokens, List.length_append, List.length_cons]
      omega
    · simp [tokens]
  | _ => exact absurd h (by simp [split?])

mutual

/-- **Every split** is one of a slice that stands in the slice in one piece. -/
theorem SplitsOf.exists_slice {depth : Nat} {ts : List Token} {splits : List Split}
    (h : SplitsOf scope depth ts splits) {split : Split} (hsplit : split ∈ splits) :
    ∃ slice, slice <:+: ts ∧ split.IsOf slice := by
  match h with
  | .refused _ _ => exact absurd hsplit (by simp)
  | .closed _ => exact absurd hsplit (by simp)
  | .entered _ _ hparts =>
    have htokens := Shape.tokens_read scope.precedence ts
    obtain hown | hrest := List.mem_append.mp hsplit
    · have hof := Shape.isOf_of_split? (Option.mem_toList.mp hown)
      exact ⟨ts, List.infix_rfl, htokens ▸ hof⟩
    · obtain ⟨part, hpart, slice, hslice, hof⟩ := hparts.exists_slice hrest
      have hinside := Shape.isInfix_of_mem_parts hpart
      rw [htokens] at hinside
      exact ⟨slice, hslice.trans hinside, hof⟩
termination_by structural h

theorem SplitsInOrder.exists_slice {depth : Nat} {parts : List (List Token)} {splits : List Split}
    (h : SplitsInOrder scope depth parts splits) {split : Split} (hsplit : split ∈ splits) :
    ∃ part ∈ parts, ∃ slice, slice <:+: part ∧ split.IsOf slice := by
  match h with
  | .nil _ => exact absurd hsplit (by simp)
  | .fails _ _ hpart => exact ⟨_, List.mem_cons_self .., hpart.exists_slice hsplit⟩
  | .cons _ hpart hrest =>
    obtain hfirst | hlater := List.mem_append.mp hsplit
    · exact ⟨_, List.mem_cons_self .., hpart.exists_slice hfirst⟩
    · obtain ⟨part, hmem, hslice⟩ := hrest.exists_slice hlater
      exact ⟨part, List.mem_cons_of_mem _ hmem, hslice⟩
termination_by structural h

end

/-! ### The operators of a slice -/

theorem operators_cons {t : Token} (ht : t.binary? none = none) (hends : t.endsOperand = false)
    (ts : List Token) : operators (t :: ts) = operators ts := by
  have hlast : [t].getLast?.any Token.endsOperand = false := by simpa using hends
  have hone : operators [t] = [] := by simp [operators, Cut.all, ht]
  rw [← List.singleton_append, operators_append hlast, hone, List.nil_append]

/-- Brackets around a slice hide none of its operators, and add none. -/
theorem operators_enclose (b : Bracket) (interior : List Token) :
    operators (.symbol (.opening b) :: (interior ++ [.symbol (.closing b)])) =
      operators interior := by
  rw [operators_cons rfl rfl, operators_concat]
  exact List.append_nil _

theorem operators_ident_enclose (name : String) (b : Bracket) (interior : List Token) :
    operators (.ident name :: .symbol (.opening b) :: (interior ++ [.symbol (.closing b)])) =
      operators interior := by
  have hends : [Token.ident name, .symbol (.opening b)].getLast?.any Token.endsOperand = false :=
    rfl
  have hfront : operators [Token.ident name, .symbol (.opening b)] = [] := rfl
  have hrow := operators_append hends (interior ++ [.symbol (.closing b)])
  rw [hfront, operators_concat] at hrow
  exact hrow.trans (List.append_nil _)

theorem operators_commaSeparated (args : List (List Token)) :
    operators (commaSeparated args) = args.flatMap operators := by
  induction args with
  | nil => rfl
  | cons arg args ih =>
    cases args with
    | nil => simp
    | cons other args =>
      have hends : (arg ++ [Token.symbol .comma]).getLast?.any Token.endsOperand = false := by
        simp [Token.endsOperand]
      have hcomma : Token.binary? arg.getLast? (.symbol .comma) = none := rfl
      rw [commaSeparated_cons_cons, List.append_cons, operators_append hends, operators_concat,
        hcomma, Option.toList_none, List.append_nil, List.flatMap_cons, ih]

/-- A single token that is cut nowhere is no operator. -/
theorem operators_singleton {t : Token} (h : Cut.find? p [t] = none) : operators [t] = [] := by
  have hall : Cut.all 0 none [t] = [] := by
    refine List.eq_nil_iff_forall_not_mem.mpr fun q hq => (Cut.ne_zero_of_find?_eq_none h hq).2 ?_
    -- nothing stands in front of the token, so no bracket is open there
    simp only [Cut.all, List.map_nil, List.append_nil, Option.mem_toList] at hq
    obtain ⟨op, -, rfl⟩ := Option.map_eq_some_iff.mp hq
    rfl
  rw [operators, hall, List.map_nil]

/-- An operand has the operators of its parts. -/
theorem Shape.operators_tokens (hsplit : s.split? = none) (hread : ∀ slice, s ≠ .unreadable slice)
    (hfind : Cut.find? p s.tokens = none) : operators s.tokens = s.parts.flatMap operators := by
  cases s with
  | empty => rfl
  | unreadable slice => exact absurd rfl (hread slice)
  | binary left op right => exact absurd hsplit (by simp [split?])
  | single t => exact operators_singleton hfind
  | group interior =>
    rw [tokens, operators_enclose, parts, List.flatMap_singleton]
  | not operand =>
    rw [tokens, operators_cons rfl rfl, parts, List.flatMap_singleton]
  | negative operand =>
    rw [tokens, operators_cons rfl rfl, parts, List.flatMap_singleton]
  | index name position =>
    rw [tokens, operators_ident_enclose, parts, List.flatMap_singleton]
  | call name interior =>
    rw [tokens, operators_ident_enclose, parts, ← operators_commaSeparated,
      commaSeparated_arguments]

/-- **The operators of a slice** are the one it is cut at and those of its parts, unless no rule
fits the slice. -/
theorem Shape.operators_perm (p : Precedence) (ts : List Token)
    (hread : ∀ slice, read p ts ≠ .unreadable slice) :
    ((read p ts).split?.toList.map Split.op ++ (read p ts).parts.flatMap operators).Perm
      (operators ts) := by
  have htokens := tokens_read p ts
  cases hfind : Cut.find? p ts with
  | some c =>
    have hbinary := (Cut.mem_candidates_iff.mp (Cut.mem_candidates_of_find? hfind)).2.1
    rw [read_of_find?_eq_some hfind] at htokens ⊢
    rw [← htokens, tokens, operators_binary hbinary]
    simpa [split?, parts] using List.perm_middle.symm
  | none =>
    have hsplit : (read p ts).split? = none := by
      cases hs : read p ts with
      | binary left op right => exact absurd hs (read_ne_binary hfind left right op)
      | _ => rfl
    have hparts := operators_tokens hsplit hread (htokens.symm ▸ hfind)
    rw [htokens] at hparts
    rw [hsplit, hparts]
    exact List.Perm.refl _

/-- The operators of a slice and those of its parts, by kind. -/
theorem Shape.countP_operators_le (p : Precedence) (ts : List Token) (kind : Operator → Bool) :
    (read p ts).split?.toList.countP (kind ·.op) +
      ((read p ts).parts.flatMap operators).countP kind ≤ (operators ts).countP kind := by
  by_cases hread : ∃ slice, read p ts = .unreadable slice
  · -- what no rule fits has no parts
    obtain ⟨slice, hslice⟩ := hread
    rw [hslice]
    exact Nat.zero_le _
  · have hperm := operators_perm p ts fun slice hslice => hread ⟨slice, hslice⟩
    have hcount := hperm.countP_eq kind
    rw [List.countP_append, List.countP_map] at hcount
    exact Nat.le_of_eq hcount

/-! ### No operator is lost or applied twice -/

mutual

/-- **No more operators are applied than there are**, of whatever kind. -/
theorem SplitsOf.countP_le {depth : Nat} {ts : List Token} {splits : List Split}
    (h : SplitsOf scope depth ts splits) (kind : Operator → Bool) :
    splits.countP (kind ·.op) ≤ (operators ts).countP kind := by
  match h with
  | .refused _ _ => exact Nat.zero_le _
  | .closed _ => exact Nat.zero_le _
  | .entered _ _ hparts =>
    have hrest := hparts.countP_le kind
    have hslice := Shape.countP_operators_le scope.precedence ts kind
    rw [List.countP_append]
    omega
termination_by structural h

theorem SplitsInOrder.countP_le {depth : Nat} {parts : List (List Token)} {splits : List Split}
    (h : SplitsInOrder scope depth parts splits) (kind : Operator → Bool) :
    splits.countP (kind ·.op) ≤ (parts.flatMap operators).countP kind := by
  match h with
  | .nil _ => exact Nat.zero_le _
  | .fails _ _ hpart =>
    have hfirst := hpart.countP_le kind
    rw [List.flatMap_cons, List.countP_append]
    omega
  | .cons _ hpart hrest =>
    have hfirst := hpart.countP_le kind
    have hlater := hrest.countP_le kind
    rw [List.flatMap_cons, List.countP_append, List.countP_append]
    omega
termination_by structural h

end

/-- A shape has a value only if its parts are evaluated and all have one. -/
theorem Shape.exists_ok_of_value_eq_ok {inner : List Token → Except RuleError Value} {v : Value}
    (h : s.value bindings inner = .ok v) :
    s.opens bindings = true ∧ (∀ slice, s ≠ .unreadable slice) ∧
      ∀ part ∈ s.parts, ∃ w, inner part = .ok w := by
  cases s with
  | empty => exact absurd h (by simp [value])
  | unreadable slice => exact absurd h (by simp [value])
  | single t => exact ⟨rfl, by simp, by simp [parts]⟩
  | group interior => exact ⟨rfl, by simp, by simpa [parts] using ⟨v, h⟩⟩
  | not operand =>
    obtain ⟨w, hw, -⟩ := bind_eq_ok_iff.mp h
    exact ⟨rfl, by simp, by simpa [parts] using ⟨w, hw⟩⟩
  | negative operand =>
    obtain ⟨w, hw, -⟩ := bind_eq_ok_iff.mp h
    exact ⟨rfl, by simp, by simpa [parts] using ⟨w, hw⟩⟩
  | binary left op right =>
    obtain ⟨a, ha, h⟩ := bind_eq_ok_iff.mp h
    obtain ⟨b, hb, -⟩ := bind_eq_ok_iff.mp h
    exact ⟨rfl, by simp, by simpa [parts] using ⟨⟨a, ha⟩, b, hb⟩⟩
  | index name position =>
    obtain ⟨items, hitems, h⟩ := bind_eq_ok_iff.mp h
    obtain ⟨w, hw, -⟩ := bind_eq_ok_iff.mp h
    refine ⟨?_, by simp, by simpa [parts] using ⟨w, hw⟩⟩
    rw [opens, hitems]
    rfl
  | call name interior =>
    obtain ⟨f, hf, h⟩ := bind_eq_ok_iff.mp h
    obtain ⟨args, hargs, -⟩ := bind_eq_ok_iff.mp h
    refine ⟨?_, by simp, fun arg harg => ?_⟩
    · rw [opens, hf]
      rfl
    · obtain ⟨x, hx⟩ := (mapM_eq_ok hargs).2 arg harg
      obtain ⟨w, hw, -⟩ := bind_eq_ok_iff.mp hx
      exact ⟨w, hw⟩

/-- A slice that has a value is entered, and so are all its parts. -/
theorem entered_of_outcome_eq_ok {v : Value} (h : (evaluate scope ts depth).outcome = .ok v) :
    depth + 1 ≤ scope.depthLimit ∧ (Shape.read scope.precedence ts).opens scope.bindings = true ∧
      (∀ slice, Shape.read scope.precedence ts ≠ .unreadable slice) ∧
      ∀ part ∈ (Shape.read scope.precedence ts).parts,
        ∃ w, (evaluate scope part (depth + 1)).outcome = .ok w := by
  rw [outcome_evaluate] at h
  split at h
  · exact absurd h (by simp)
  · exact ⟨by omega, Shape.exists_ok_of_value_eq_ok h⟩

mutual

/-- **Where there is a value** every operator is applied, and none twice. -/
theorem SplitsOf.perm {depth : Nat} {ts : List Token} {splits : List Split}
    (h : SplitsOf scope depth ts splits) {v : Value}
    (hok : (evaluate scope ts depth).outcome = .ok v) :
    (splits.map Split.op).Perm (operators ts) := by
  obtain ⟨hentered, hopens, hread, hparts⟩ := entered_of_outcome_eq_ok hok
  match h with
  | .refused _ hdeep => omega
  | .closed hclosed => exact absurd (hclosed.symm.trans hopens) (by decide)
  | .entered _ _ hinner =>
    have hrest := hinner.perm hparts
    rw [List.map_append]
    exact (hrest.append_left _).trans (Shape.operators_perm scope.precedence ts hread)
termination_by structural h

theorem SplitsInOrder.perm {depth : Nat} {parts : List (List Token)} {splits : List Split}
    (h : SplitsInOrder scope depth parts splits)
    (hok : ∀ part ∈ parts, ∃ v, (evaluate scope part depth).outcome = .ok v) :
    (splits.map Split.op).Perm (parts.flatMap operators) := by
  match h with
  | .nil _ => exact List.Perm.refl _
  | .fails _ herror _ =>
    obtain ⟨v, hv⟩ := hok _ (List.mem_cons_self ..)
    exact absurd (herror.symm.trans hv) (by simp)
  | .cons hv hpart hrest =>
    have hlater := hrest.perm fun other hother => hok other (List.mem_cons_of_mem _ hother)
    rw [List.map_append, List.flatMap_cons]
    exact (hpart.perm hv).append hlater
termination_by structural h

end

/-- **No operator is lost or applied twice.**  The splits of an evaluation are those of the slice
and then of its parts, in order and up to the first failure, and each is a split of a slice that
stands in the slice in one piece.  Of every kind of operator no more are applied than the slice has;
and if it has a value, each of its binary operators is applied exactly once. -/
theorem splitsOf_iff_and_perm_operators (scope : Scope) (ts : List Token) (depth : Nat) :
    (∀ splits, SplitsOf scope depth ts splits ↔ splits = (evaluate scope ts depth).splits) ∧
      (∀ split ∈ (evaluate scope ts depth).splits, ∃ slice, slice <:+: ts ∧ split.IsOf slice) ∧
      (∀ kind, (evaluate scope ts depth).splits.countP (kind ·.op) ≤ (operators ts).countP kind) ∧
      (evaluate scope ts depth).splits.length ≤ (operators ts).length ∧
      ∀ v, (evaluate scope ts depth).outcome = .ok v →
        (evaluate scope ts depth).splits.length = (operators ts).length ∧
          ((evaluate scope ts depth).splits.map Split.op).Perm (operators ts) := by
  have h := splitsOf_evaluate scope ts depth
  refine ⟨fun _ => splitsOf_iff, fun _ => h.exists_slice, h.countP_le, ?_, fun v hv => ?_⟩
  · have hcount := h.countP_le fun _ => true
    rwa [List.countP_true, List.countP_true] at hcount
  · have hperm := h.perm hv
    exact ⟨by rw [← hperm.length_eq, List.length_map], hperm⟩

/-- The product stands last and is split first, and of the three minus signs one is an operator. -/
theorem splitsOf_iff_and_perm_operators_of_call :
    let scope : Scope := ⟨.ofList [("x", .number 1)], .conventional, 64⟩
    let ts : List Token := [.ident "max", .symbol (.opening .round), .ident "x",
      .symbol (.operator (.arithmetic .subtract)), .symbol (.operator (.arithmetic .subtract)),
      .number "1", .symbol .comma, .symbol (.operator (.arithmetic .subtract)), .number "2",
      .symbol (.closing .round), .symbol (.operator (.arithmetic .multiply)), .ident "x"]
    ∃ v, (evaluate scope ts 0).outcome = .ok v ∧ (evaluate scope ts 0).splits.length = 2 ∧
      ((evaluate scope ts 0).splits.map Split.op).Perm
        [.arithmetic .subtract, .arithmetic .multiply] := by
  intro scope ts
  have hx : Derives (.known scope.bindings) .operand [.ident "x"] := .word (by simp) ⟨_, rfl⟩
  have hone : Derives (.known scope.bindings) .operand [.number "1"] := .word (by simp) ⟨_, rfl⟩
  have htwo : Derives (.known scope.bindings) .operand [.number "2"] := .word (by simp) ⟨_, rfl⟩
  have hfirst := Derives.binary (.arithmetic .subtract) (.operand hx) (.negative hone)
  have hsecond := Derives.operand (.negative htwo)
  have hcall : Derives (.known scope.bindings) .operand (.ident "max" ::
      .symbol (.opening .round) :: (commaSeparated [_, _] ++ [.symbol (.closing .round)])) :=
    .call ⟨_, rfl, rfl⟩ (List.forall_mem_cons.mpr ⟨hfirst, by simpa using hsecond⟩)
  have haccepted : Accepted .conventional scope.bindings ts :=
    ⟨Derives.binary (.arithmetic .multiply) (.operand hcall) hx, by simp [Precedence.mindsBrackets]⟩
  have hdepth := failsOnly_evaluate scope ts 0 (by decide)
  obtain ⟨v, hv⟩ := (accepted_iff hdepth).mpr haccepted
  obtain ⟨hlength, hperm⟩ := (splitsOf_iff_and_perm_operators scope ts 0).2.2.2.2 v hv
  have hoperators : operators ts = [.arithmetic .subtract, .arithmetic .multiply] := by decide
  rw [hoperators] at hlength hperm
  exact ⟨v, hv, hlength, hperm⟩

end RuleConditions
