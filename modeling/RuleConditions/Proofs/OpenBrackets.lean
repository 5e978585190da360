import RuleConditions.Proofs.BracketWords
import RuleConditions.Proofs.Evaluation

/-!
# Open brackets of a slice

The test for pairing keeps the open brackets on a stack and tells their kinds apart.  The scans of a
slice only count, each in its own way: the scans for an operator and for commas carry a number that
may have either sign, and the scan for the partner of a bracket starts in the middle of a slice.

On a slice whose brackets pair all of them agree with the stack.  A scan that has come to a place goes
on with the height of the stack there (`CountsOpen`), and the partner that is found is the one with a
paired slice in between (`IsPartner`).

The evaluation asks for no test of its own.  It need not: each slice that it recurses on has paired
brackets again if the whole slice has (`Reaches.bracketsPair`).
-/

namespace RuleConditions

variable {t : Token} {ts xs ys front back after inside other rest more interior slice part : List Token}
  {b c : Bracket} {awaiting inner stack : List Bracket}

/-! ### Scans from a place on -/

namespace Cut

/-- A scan for the first operator goes on from any place with the brackets that are open there. -/
theorem first?_append (s : Search) (k : Int) (b : Option Token) (xs ys : List Token) :
    first? s k b (xs ++ ys) = ((first? s k b xs).map (widen [] ys)).or
      ((first? s (k + nesting xs) (xs.getLast?.or b) ys).map (widen xs [])) := by
  rw [first?_eq, first?_eq, first?_eq, all_append, List.find?_append, List.find?_map, List.find?_map,
    Option.map_or, Option.map_map, Option.map_map, Option.map_map, Option.map_map]
  rfl

/-- A scan for the last operator goes on from any place with the brackets that are open there. -/
theorem last?_append (s : Search) (k : Int) (b : Option Token) (xs ys : List Token) :
    last? s k b (xs ++ ys) = ((last? s (k + nesting xs) (xs.getLast?.or b) ys).map (widen xs [])).or
      ((last? s k b xs).map (widen [] ys)) := by
  rw [last?_eq, last?_eq, last?_eq, all_append, List.reverse_append, ← List.map_reverse,
    ← List.map_reverse, List.find?_append, List.find?_map, List.find?_map, Option.map_or,
    Option.map_map, Option.map_map, Option.map_map, Option.map_map]
  rfl

end Cut

/-- The last of some groups of tokens goes on up to the next comma, and further groups follow. -/
def continueGroups (group : List Token) (groups : List (List Token))
    (behind : List Token × List (List Token)) : List Token × List (List Token) :=
  match groups with
  | [] => (group ++ behind.1, behind.2)
  | next :: groups =>
    let continued := continueGroups next groups behind
    (group, continued.1 :: continued.2)

theorem continueGroups_cons (t : Token) (group : List Token) (groups : List (List Token))
    (behind : List Token × List (List Token)) :
    continueGroups (t :: group) groups behind =
      (t :: (continueGroups group groups behind).1, (continueGroups group groups behind).2) := by
  cases groups <;> rfl

/-- A scan for commas goes on from any place with the brackets that are open there. -/
theorem splitCommas_append_eq (k : Int) (xs ys : List Token) :
    splitCommas k (xs ++ ys) = continueGroups (splitCommas k xs).1 (splitCommas k xs).2
      (splitCommas (k + nesting xs) ys) := by
  induction xs generalizing k with
  | nil => simp [splitCommas, continueGroups]
  | cons t xs ih =>
    rw [List.cons_append, splitCommas, splitCommas, ih, nesting_cons, ← Int.add_assoc]
    split
    · rfl
    · rw [continueGroups_cons]

/-! ### The scans count the stack -/

/-- Where the tokens `front` have been passed, the brackets of `stack` are open, the innermost first:
the test for pairing goes on with the stack, and every scan with its height. -/
structure CountsOpen (front : List Token) (stack : List Bracket) : Prop where
  nesting_eq : nesting front = stack.length
  pairing : ∀ rest, closesAll [] (front ++ rest) = closesAll stack rest
  first : ∀ (s : Cut.Search) (rest : List Token), Cut.first? s 0 none (front ++ rest) =
    ((Cut.first? s 0 none front).map (.widen [] rest)).or
      ((Cut.first? s stack.length front.getLast? rest).map (.widen front []))
  last : ∀ (s : Cut.Search) (rest : List Token), Cut.last? s 0 none (front ++ rest) =
    ((Cut.last? s stack.length front.getLast? rest).map (.widen front [])).or
      ((Cut.last? s 0 none front).map (.widen [] rest))
  commas : ∀ rest, splitCommas 0 (front ++ rest) =
    continueGroups (splitCommas 0 front).1 (splitCommas 0 front).2 (splitCommas stack.length rest)

/-- **At each place of a paired slice** the scans count the brackets on the stack. -/
theorem exists_countsOpen (h : bracketsPair (front ++ back)) : ∃ stack, CountsOpen front stack := by
  have hnil : closesAll [] (front ++ back) := h
  obtain ⟨stack, hstack, hlength⟩ := exists_stack_of_closesAll hnil
  have hcount : 0 + nesting front = stack.length := by rwa [List.length_nil] at hlength
  refine ⟨stack, by rwa [Int.zero_add] at hcount, hstack, fun s rest => ?_, fun s rest => ?_,
    fun rest => ?_⟩
  · rw [Cut.first?_append, hcount, Option.or_none]
  · rw [Cut.last?_append, hcount, Option.or_none]
  · rw [splitCommas_append_eq, hcount]

/-! ### Partners -/

/-- The bracket of kind `b` in front of `after` has its partner behind `inside`. -/
structure IsPartner (b : Bracket) (after inside rest : List Token) : Prop where
  eq : after = inside ++ .symbol (.closing b) :: rest
  pair : bracketsPair inside

/-- What closes a bracket on a stack closes those above it before. -/
theorem exists_closing (h : closesAll (inner ++ b :: awaiting) ts) :
    ∃ inside rest, ts = inside ++ .symbol (.closing b) :: rest ∧ closesAll inner inside ∧
      closesAll awaiting rest := by
  induction ts generalizing inner with
  | nil => exact absurd (eq_nil_of_closesAll_nil h) (by simp)
  | cons t ts ih =>
    obtain ⟨c, rfl⟩ | ⟨c, rfl⟩ | ht := t.bracket_cases
    · -- one more bracket is open above `b`
      rw [closesAll_opening] at h
      obtain ⟨inside, rest, rfl, hinside, hrest⟩ := @ih (c :: inner) h
      exact ⟨.symbol (.opening c) :: inside, rest, rfl, by rwa [closesAll_opening], hrest⟩
    · cases inner with
      | nil =>
        -- nothing is open above `b`, so this is its partner
        rw [List.nil_append, closesAll_closing_cons, Bool.and_eq_true, beq_iff_eq] at h
        obtain ⟨rfl, h⟩ := h
        exact ⟨[], ts, rfl, rfl, h⟩
      | cons d inner =>
        rw [List.cons_append, closesAll_closing_cons, Bool.and_eq_true] at h
        obtain ⟨inside, rest, rfl, hinside, hrest⟩ := ih h.2
        refine ⟨.symbol (.closing c) :: inside, rest, rfl, ?_, hrest⟩
        rw [closesAll_closing_cons, h.1, hinside]
        rfl
    · rw [closesAll_cons ht] at h
      obtain ⟨inside, rest, rfl, hinside, hrest⟩ := ih h
      exact ⟨t :: inside, rest, rfl, by rwa [closesAll_cons ht], hrest⟩

/-- An opening bracket of a paired slice has a partner. -/
theorem exists_isPartner (h : bracketsPair (front ++ .symbol (.opening b) :: after)) :
    ∃ inside rest, IsPartner b after inside rest := by
  have hnil : closesAll [] (front ++ .symbol (.opening b) :: after) := h
  obtain ⟨stack, hstack, -⟩ := exists_stack_of_closesAll hnil
  rw [hstack, closesAll_opening] at hnil
  obtain ⟨inside, rest, hafter, hinside, -⟩ := @exists_closing after b stack [] hnil
  exact ⟨inside, rest, hafter, hinside⟩

/-- No closing bracket in a paired slice can be the partner of one in front of the slice. -/
theorem IsPartner.not_append (h : IsPartner b after inside rest) :
    ¬ IsPartner c after (inside ++ .symbol (.closing b) :: more) ys := by
  intro hother
  have hpair := hother.pair
  rw [List.append_cons] at hpair
  have hnonneg := nesting_nonneg hpair
  rw [nesting_append, nesting_of_bracketsPair h.pair, nesting_cons, nesting_nil,
    Token.nestingChange_closing] at hnonneg
  exact absurd hnonneg (by decide)

/-- A bracket has one partner only. -/
theorem IsPartner.unique (h : IsPartner b after inside rest) (hother : IsPartner c after other more) :
    other = inside ∧ more = rest := by
  -- one of the two paired slices continues the other, and a longer one would hold its partner
  have heq := h.eq.symm.trans hother.eq
  obtain ⟨mid, rfl, hmid⟩ | ⟨mid, rfl, hmid⟩ := List.append_eq_append_iff.mp heq
  · cases mid with
    | nil => exact ⟨List.append_nil _, (List.cons.inj hmid).2.symm⟩
    | cons t mid =>
      obtain ⟨rfl, -⟩ := List.cons.inj hmid
      exact absurd hother h.not_append
  · cases mid with
    | nil => exact ⟨(List.append_nil _).symm, (List.cons.inj hmid).2⟩
    | cons t mid =>
      obtain ⟨rfl, -⟩ := List.cons.inj hmid
      exact absurd h hother.not_append

/-- **The partner of a bracket** is seen at the end exactly if it stands there. -/
theorem IsPartner.closesAtEnd_iff (h : IsPartner b after inside rest) :
    closesAtEnd 0 after = true ↔ rest = [] := by
  have hinside : closesAll [] inside := h.pair
  have hclose := @closesAtEnd_append inside (.symbol (.closing b) :: rest) [] 0 hinside
  rw [← h.eq, List.length_nil, Nat.zero_add] at hclose
  rw [hclose, closesAtEnd, List.isEmpty_iff]

/-! ### Pairing is inherited -/

/-- A paired slice is paired on both sides of a place where no bracket is open. -/
theorem bracketsPair_of_append (h : bracketsPair (xs ++ ys)) (hxs : nesting xs = 0) :
    bracketsPair xs ∧ bracketsPair ys := by
  obtain ⟨stack, hstack⟩ := exists_countsOpen h
  have hlength := hstack.nesting_eq
  rw [hxs] at hlength
  obtain rfl := List.length_eq_zero_iff.mp (Int.ofNat_eq_zero.mp hlength.symm)
  have hleft := hstack.pairing []
  have hright := hstack.pairing ys
  rw [List.append_nil] at hleft
  exact ⟨hleft, hright.symm.trans h⟩

theorem bracketsPair_of_cons (ht : t.nestingChange = 0) (h : bracketsPair (t :: ts)) :
    bracketsPair ts := by
  rwa [bracketsPair, closesAll_cons ht] at h

theorem bracketsPair_of_enclosed? (h : bracketsPair (.symbol (.opening b) :: after))
    (hinterior : enclosed? .conventional b after = some interior) : bracketsPair interior := by
  obtain ⟨inside, rest, hpartner⟩ := @exists_isPartner [] after b h
  have hend : closesAtEnd 0 after = true := by
    unfold enclosed? at hinterior
    split at hinterior
    · rename_i hclose
      simpa [Precedence.mindsBrackets] using (Bool.and_eq_true_iff.mp hclose).2
    · cases hinterior
  have hafter := Shape.append_of_enclosed? hinterior
  rw [hpartner.eq, hpartner.closesAtEnd_iff.mp hend, List.append_cancel_right_eq] at hafter
  rw [hafter]
  exact hpartner.pair

/-- Commas where the stack is empty cut paired tokens into paired groups. -/
theorem closesAll_splitCommas (h : closesAll stack ts) :
    closesAll stack (splitCommas stack.length ts).1 ∧
      ∀ group ∈ (splitCommas stack.length ts).2, bracketsPair group := by
  -- only the first group closes what is open at the start, so it alone goes along with the stack
  induction ts generalizing stack with
  | nil => exact ⟨h, by simp [splitCommas]⟩
  | cons t ts ih =>
    rw [splitCommas]
    split
    · -- nothing is open at this comma, so the tokens behind it are paired by themselves
      rename_i hcomma
      obtain ⟨rfl, hlevel⟩ := hcomma
      obtain rfl := List.length_eq_zero_iff.mp (Int.ofNat_eq_zero.mp hlevel)
      obtain ⟨hfirst, hothers⟩ := @ih [] h
      exact ⟨rfl, List.forall_mem_cons.mpr ⟨hfirst, hothers⟩⟩
    · obtain ⟨c, rfl⟩ | ⟨c, rfl⟩ | ht := t.bracket_cases
      · rw [closesAll_opening] at h ⊢
        exact ih h
      · cases stack with
        | nil => exact absurd h (by simp)
        | cons d stack =>
          rw [closesAll_closing_cons, Bool.and_eq_true] at h
          obtain ⟨hfirst, hothers⟩ := ih h.2
          have hlevel : ((d :: stack).length : Int) + (Token.symbol (.closing c)).nestingChange =
              stack.length := by
            rw [List.length_cons, Token.nestingChange_closing]
            omega
          rw [hlevel, closesAll_closing_cons, h.1, hfirst]
          exact ⟨rfl, hothers⟩
      · rw [closesAll_cons ht] at h ⊢
        rw [ht, Int.add_zero]
        exact ih h

theorem bracketsPair_of_mem_arguments (h : bracketsPair interior) (hpart : part ∈ arguments interior) :
    bracketsPair part := by
  cases interior with
  | nil => exact absurd hpart (by simp [arguments])
  | cons t ts =>
    have hnil : closesAll [] (t :: ts) := h
    obtain ⟨hfirst, hothers⟩ := closesAll_splitCommas hnil
    obtain rfl | hpart := List.mem_cons.mp hpart
    · exact hfirst
    · exact hothers part hpart

namespace Shape

/-- The slices inside a shape have paired brackets: operands, what brackets enclose, and all
arguments of a call together. -/
def PairsInside : Shape → Prop
  | .binary left _ right => bracketsPair left ∧ bracketsPair right
  | .group slice | .call _ slice | .index _ slice | .not slice | .negative slice =>
    bracketsPair slice
  | .empty | .single _ | .unreadable _ => True

theorem pairsInside_of_bracketed? {s : Shape} (h : bracketsPair (t :: ts))
    (hs : bracketed? .conventional t ts = some s) : s.PairsInside := by
  unfold bracketed? at hs
  split at hs
  case h_4 => cases hs
  all_goals obtain ⟨interior, hinterior, rfl⟩ := Option.map_eq_some_iff.mp hs
  case h_1 => exact bracketsPair_of_enclosed? h hinterior
  -- behind a name the brackets pair as with it
  all_goals exact bracketsPair_of_enclosed? (bracketsPair_of_cons rfl h) hinterior

theorem pairsInside_simple (h : bracketsPair (t :: ts)) : (simple t ts).PairsInside := by
  unfold simple
  split
  · exact bracketsPair_of_cons rfl h
  · exact bracketsPair_of_cons rfl h
  · trivial
  · trivial

/-- **A paired slice is read as a shape with paired slices inside.** -/
theorem pairsInside_read (h : bracketsPair ts) : (read .conventional ts).PairsInside := by
  cases ts with
  | nil => trivial
  | cons t ts =>
    cases hcut : Cut.find? .conventional (t :: ts) with
    | some cut =>
      obtain ⟨htokens, -, hnesting⟩ := Cut.mem_candidates_iff.mp (Cut.mem_candidates_of_find? hcut)
      rw [read_of_find?_eq_some hcut]
      rw [← htokens, Cut.tokens] at h
      obtain ⟨hleft, hright⟩ := bracketsPair_of_append h (hnesting rfl)
      exact ⟨hleft, bracketsPair_of_cons rfl hright⟩
    | none =>
      rw [read_cons_of_find?_eq_none hcut]
      cases hs : bracketed? .conventional t ts with
      | some s => exact pairsInside_of_bracketed? h hs
      | none => exact pairsInside_simple h

theorem PairsInside.bracketsPair_of_mem_parts {s : Shape} (h : s.PairsInside)
    (hpart : part ∈ s.parts) : bracketsPair part := by
  cases s with
  | binary left op right =>
    simp only [parts, List.mem_cons, List.not_mem_nil, or_false] at hpart
    obtain rfl | rfl := hpart
    · exact h.1
    · exact h.2
  | call name interior => exact bracketsPair_of_mem_arguments h hpart
  | group | index | not | negative =>
    obtain rfl := List.mem_singleton.mp hpart
    exact h
  | empty | single | unreadable => exact absurd hpart (by simp [parts])

end Shape

/-! ### Slices that are evaluated -/

/-- The evaluation of a slice recurses on another one, or on itself: operands of an operator or a
sign, what brackets enclose and the arguments of a call, and then those of these. -/
inductive Reaches (p : Precedence) : (ts slice : List Token) → Prop
  | self (ts : List Token) : Reaches p ts ts
  | part {ts part slice : List Token} (hpart : part ∈ (Shape.read p ts).parts)
      (h : Reaches p part slice) : Reaches p ts slice

/-- **Pairing is inherited** by every slice that the evaluation recurses on. -/
theorem Reaches.bracketsPair (hslice : Reaches .conventional ts slice) (h : bracketsPair ts) :
    bracketsPair slice := by
  induction hslice with
  | self => exact h
  | part hpart _ ih => exact ih ((Shape.pairsInside_read h).bracketsPair_of_mem_parts hpart)

namespace Evaluation

variable {α : Type} {P Q : List Token → Prop}

/-- An evaluation that enters no other slices than these. -/
def EntersOnly (P : List Token → Prop) (e : Evaluation α) : Prop :=
  ∀ depth level slice, .entered level slice ∈ (e depth).trace → P slice

theorem EntersOnly.mono {e : Evaluation α} (h : EntersOnly P e) (himp : ∀ slice, P slice → Q slice) :
    EntersOnly Q e :=
  fun depth level slice hslice => himp slice (h depth level slice hslice)

theorem entersOnly_nested {inside : Evaluation α} (h : EntersOnly P inside) (limit : Nat)
    (hslice : P slice) : EntersOnly P (nested limit slice inside) := by
  intro depth level other hother
  unfold nested at hother
  split at hother
  · cases hother
  · simp only [List.cons_append, List.mem_cons, List.mem_append, Event.entered.injEq,
      List.not_mem_nil, or_false, reduceCtorEq] at hother
    obtain ⟨-, rfl⟩ | hother := hother
    · exact hslice
    · exact h _ level other hother

theorem congruence_entersOnly (P : List Token → Prop) :
    Congruence fun _ first _ => EntersOnly P first := by
  refine ⟨fun outcome _ _ _ hslice => ?_, fun split _ _ _ hslice => ?_,
    fun {α β first _ second _} hfirst hsecond depth level slice hslice => ?_⟩
  · cases hslice
  · simp [note] at hslice
  · cases houtcome : (first depth).outcome with
    | error e =>
      rw [andThen_of_error houtcome] at hslice
      exact hfirst depth level slice hslice
    | ok a =>
      rw [andThen_of_ok houtcome] at hslice
      obtain hslice | hslice := List.mem_append.mp hslice
      · exact hfirst depth level slice hslice
      · exact hsecond a _ level slice hslice

end Evaluation

/-- An evaluation enters no slices but those it recurses on. -/
theorem entersOnly_evaluate (scope : Scope) (ts : List Token) :
    (evaluate scope ts).EntersOnly (Reaches scope.precedence ts) := by
  induction ts using Shape.induction scope.precedence with
  | step ts ih =>
    rw [evaluate_eq]
    refine Evaluation.entersOnly_nested ?_ _ (.self ts)
    refine Shape.run_of_congruence (Evaluation.congruence_entersOnly _) _ _ (evaluate scope) ?_
    exact fun part hpart => (ih part hpart).mono fun slice => .part hpart

/-! ### Balance and counters -/

/-- **Balance is inherited and the counters are right**, on every slice that the evaluation of a
paired slice recurses on: the slice is paired; at each of its places, and at those of what a call on
it encloses, the scans count the brackets that are open; and the partner of a bracket is seen at the
end exactly if it stands there. -/
theorem checkPairing_of_reaches_and_countsOpen (ts : List Token) (h : checkPairing ts = .ok ()) :
    (∀ bindings maxDepth depth level slice,
      .entered level slice ∈ (evaluate ⟨bindings, .conventional, maxDepth⟩ ts depth).trace →
        Reaches .conventional ts slice) ∧
    ∀ slice, Reaches .conventional ts slice →
      checkPairing slice = .ok () ∧
      (∀ front back, slice = front ++ back → ∃ stack, CountsOpen front stack) ∧
      (∀ name interior, Shape.read .conventional slice = .call name interior →
        ∀ front back, interior = front ++ back → ∃ stack, CountsOpen front stack) ∧
      ∀ front b after, slice = front ++ .symbol (.opening b) :: after →
        ∃ inside rest, IsPartner b after inside rest ∧
          (∀ c other more, IsPartner c after other more → other = inside ∧ more = rest) ∧
          (closesAtEnd 0 after = true ↔ rest = []) := by
  refine ⟨fun bindings maxDepth => entersOnly_evaluate ⟨bindings, .conventional, maxDepth⟩ ts,
    fun slice hslice => ?_⟩
  have hpair := hslice.bracketsPair (checkPairing_eq_ok_iff.mp h)
  refine ⟨checkPairing_eq_ok_iff.mpr hpair, ?_, ?_, ?_⟩
  · rintro front back rfl
    exact exists_countsOpen hpair
  · rintro name interior hread front back rfl
    have hinside := Shape.pairsInside_read hpair
    rw [hread] at hinside
    exact exists_countsOpen hinside
  · rintro front b after rfl
    obtain ⟨inside, rest, hpartner⟩ := exists_isPartner hpair
    exact ⟨inside, rest, hpartner, fun c other more => hpartner.unique, hpartner.closesAtEnd_iff⟩

/-- In `(a) - max(-(b), c[0])` the first bracket and the last are not partners, and the evaluation
recurses on the argument `-(b)`. -/
theorem checkPairing_of_reaches_and_countsOpen_of_call :
    let argument : List Token := [.symbol (.operator (.arithmetic .subtract)),
      .symbol (.opening .round), .ident "b", .symbol (.closing .round)]
    let after : List Token := [.ident "a", .symbol (.closing .round),
      .symbol (.operator (.arithmetic .subtract)), .ident "max", .symbol (.opening .round)] ++
      argument ++ [.symbol .comma, .ident "c", .symbol (.opening .square), .number "0",
        .symbol (.closing .square), .symbol (.closing .round)]
    let ts := .symbol (.opening .round) :: after
    checkPairing ts = .ok () ∧ Reaches .conventional ts argument ∧
      checkPairing argument = .ok () ∧ closesAtEnd 0 after = false ∧
      ∃ inside rest, IsPartner .round after inside rest ∧ rest ≠ [] := by
  intro argument after ts
  have hpair : checkPairing ts = .ok () := rfl
  have hcall : after.drop 3 ∈ (Shape.read .conventional ts).parts := by decide
  have hlast : argument ∈ (Shape.read .conventional (after.drop 3)).parts := by decide
  have hreaches : Reaches .conventional ts argument := .part hcall (.part hlast (.self argument))
  have hend : closesAtEnd 0 after = false := by decide
  obtain ⟨-, hslices⟩ := checkPairing_of_reaches_and_countsOpen ts hpair
  obtain ⟨hargument, -⟩ := hslices argument hreaches
  obtain ⟨-, -, -, hpartners⟩ := hslices ts (.self ts)
  obtain ⟨inside, rest, hpartner, -, hiff⟩ := hpartners [] .round after rfl
  refine ⟨hpair, hreaches, hargument, hend, inside, rest, hpartner, fun hrest => ?_⟩
  rw [hiff.mpr hrest] at hend
  cases hend

end RuleConditions
