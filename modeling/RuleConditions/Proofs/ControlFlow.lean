import RuleConditions.Proofs.Evaluation

/-!
# The course of an evaluation

Which slices are entered and split, and which error ends an evaluation, depends on the bindings
only through the names that are bound and those that hold arrays; values do not decide anything on
the way.  Both sides of a logical operator are evaluated whatever the first is worth, a number that
makes no sense is NaN, and a position beyond the end of an array is undefined.

`Evaluation.Similar R` relates two evaluations that take the same course and end with results
related by `R`, or with errors that differ at most in the type found in place of an array.  Every
step of an evaluation keeps the relation (`similar_andThen`, `similar_each`, `similar_nested`), and
so does every rule (`Shape.similar_run`), hence every evaluation (`similar_evaluate`).
-/

namespace RuleConditions

open Evaluation

variable {α β γ δ ι : Type} {R : α → β → Prop} {S : γ → δ → Prop} {a b : Bindings} {s : Shape}

/-! ### What may differ -/

/-- The same error, up to the type that was found in place of an array. -/
inductive RuleError.Similar : RuleError → RuleError → Prop
  | same (e : RuleError) : Similar e e
  | notAnArray (name : String) (found other : ValueType) :
      Similar (.notAnArray name found) (.notAnArray name other)

/-- Bindings of the same names, with arrays under the same of them. -/
structure Bindings.SameShape (a b : Bindings) : Prop where
  bound : ∀ name, (a.get? name).isSome = (b.get? name).isSome
  arrays : ∀ name, (∃ items, a.get? name = some (.array items)) ↔
    ∃ items, b.get? name = some (.array items)

/-- Two outcomes with related results or with similar errors. -/
inductive SimilarOutcome (R : α → β → Prop) : Except RuleError α → Except RuleError β → Prop
  | ok {x : α} {y : β} (h : R x y) : SimilarOutcome R (.ok x) (.ok y)
  | error {e e' : RuleError} (h : e.Similar e') : SimilarOutcome R (.error e) (.error e')

/-- Two runs of the same course with similar outcomes. -/
structure Run.Similar (R : α → β → Prop) (first : Run α) (second : Run β) : Prop where
  outcome : SimilarOutcome R first.outcome second.outcome
  depth : first.depth = second.depth
  trace : first.trace = second.trace

theorem similarOutcome_same (e : RuleError) : SimilarOutcome R (.error e) (.error e) :=
  .error (.same e)

/-- Similar outcomes are both results or both errors. -/
theorem SimilarOutcome.exists_ok_iff {x : Except RuleError α} {y : Except RuleError β}
    (h : SimilarOutcome R x y) : (∃ v, x = .ok v) ↔ ∃ w, y = .ok w := by
  cases h with
  | ok h => simp
  | error h => simp

theorem SimilarOutcome.similar {x : Except RuleError α} {y : Except RuleError β}
    {e e' : RuleError} (h : SimilarOutcome R x y) (hx : x = .error e) (hy : y = .error e') :
    e.Similar e' := by
  cases h with
  | ok h => exact absurd hx (by simp)
  | error h =>
    rw [← Except.error.inj hx, ← Except.error.inj hy]
    exact h

/-! ### Steps of an evaluation -/

namespace Evaluation

/-- Two evaluations whose runs are similar from every depth. -/
def Similar (R : α → β → Prop) (first : Evaluation α) (second : Evaluation β) : Prop :=
  ∀ depth, (first depth).Similar R (second depth)

theorem similar_ofExcept {x : Except RuleError α} {y : Except RuleError β}
    (h : SimilarOutcome R x y) : Similar R (ofExcept x) (ofExcept y) :=
  fun _ => ⟨h, rfl, rfl⟩

theorem similar_done {x : α} {y : β} (h : R x y) : Similar R (done x) (done y) :=
  similar_ofExcept (.ok h)

theorem similar_fail (e : RuleError) : Similar R (fail e) (fail e) :=
  similar_ofExcept (similarOutcome_same e)

theorem similar_note (event : Event) : Similar Eq (note event) (note event) :=
  fun _ => ⟨.ok rfl, rfl, rfl⟩

/-- **One after the other**: what follows has to be similar for related results only. -/
theorem similar_andThen {first : Evaluation α} {second : Evaluation β} {next : α → Evaluation γ}
    {next' : β → Evaluation δ} (h : Similar R first second)
    (hnext : ∀ x y, R x y → Similar S (next x) (next' y)) :
    Similar S (andThen first next) (andThen second next') := by
  intro depth
  obtain ⟨houtcome, hdepth, htrace⟩ := h depth
  generalize hx : (first depth).outcome = x at houtcome
  generalize hy : (second depth).outcome = y at houtcome
  cases houtcome with
  | error he =>
    rw [andThen_of_error hx, andThen_of_error hy]
    exact ⟨.error he, hdepth, htrace⟩
  | @ok x y hxy =>
    have hafter := hnext x y hxy (first depth).depth
    rw [andThen_of_ok hx, andThen_of_ok hy, ← hdepth, ← htrace]
    exact ⟨hafter.outcome, hafter.depth, congrArg _ hafter.trace⟩

/-- The limit is passed on both sides or on none. -/
theorem similar_nested {inside : Evaluation α} {inside' : Evaluation β}
    (h : Similar R inside inside') (limit : Nat) (slice : List Token) :
    Similar R (nested limit slice inside) (nested limit slice inside') := by
  intro depth
  unfold nested
  split
  · exact ⟨similarOutcome_same _, rfl, rfl⟩
  · obtain ⟨houtcome, hdepth, htrace⟩ := h (depth + 1)
    refine ⟨houtcome, ?_, ?_⟩
    · simp only [hdepth]
    · simp only [hdepth, htrace]

/-- Item by item, and in the end as many results on the one side as on the other. -/
theorem similar_each {f : ι → Evaluation α} {g : ι → Evaluation β} {items : List ι}
    (h : ∀ item ∈ items, Similar R (f item) (g item)) :
    Similar (fun xs ys => xs.length = ys.length) (each items fun item _ => f item)
      (each items fun item _ => g item) := by
  induction items with
  | nil => exact similar_done rfl
  | cons item items ih =>
    have hitem := h item (List.mem_cons_self ..)
    have hitems := ih fun other hother => h other (List.mem_cons_of_mem _ hother)
    refine similar_andThen hitem fun x y _ => similar_andThen hitems fun xs ys hlength => ?_
    apply similar_done
    rw [List.length_cons, List.length_cons, hlength]

end Evaluation

/-! ### Look-up and calls -/

/-- Any two results are related. -/
def AnyTwo (_ : α) (_ : β) : Prop := True

/-- A name is unbound in both, or bound to an array in both, or in both bound to something else. -/
theorem Bindings.SameShape.cases (h : a.SameShape b) (name : String) :
    (a.get? name = none ∧ b.get? name = none) ∨
      (∃ items items', a.get? name = some (.array items) ∧ b.get? name = some (.array items')) ∨
      ∃ v w, a.get? name = some v ∧ b.get? name = some w ∧ v.items? = none ∧ w.items? = none := by
  have hbound := h.bound name
  have harrays := h.arrays name
  have hitems : ∀ v : Value, v.items? = none ∨ ∃ items, v = .array items := by
    intro v
    cases v with
    | array items => exact .inr ⟨items, rfl⟩
    | _ => exact .inl rfl
  cases ha : a.get? name with
  | none =>
    rw [ha] at hbound
    exact .inl ⟨rfl, Option.isNone_iff_eq_none.mp (Option.isSome_eq_false_iff.mp hbound.symm)⟩
  | some v =>
    rw [ha] at hbound harrays
    obtain ⟨w, hb⟩ := Option.isSome_iff_exists.mp hbound.symm
    rw [hb] at harrays ⊢
    obtain hv | ⟨items, rfl⟩ := hitems v
    · obtain hw | ⟨items', rfl⟩ := hitems w
      · exact .inr (.inr ⟨v, w, rfl, rfl, hv, hw⟩)
      · obtain ⟨items, hv'⟩ := harrays.mpr ⟨items', rfl⟩
        rw [Option.some.inj hv'] at hv
        exact absurd hv (by simp [Value.items?])
    · obtain ⟨items', hw⟩ := harrays.mp ⟨items, rfl⟩
      exact .inr (.inl ⟨items, items', rfl, hw⟩)

theorem similarOutcome_valueOfName (h : a.SameShape b) (name : String) :
    SimilarOutcome AnyTwo (valueOfName a name) (valueOfName b name) := by
  unfold valueOfName
  cases hfixed : fixedName? name with
  | some v => exact .ok trivial
  | none =>
    -- only a name without a fixed meaning is looked up among the bindings
    obtain ⟨ha, hb⟩ | ⟨items, items', ha, hb⟩ | ⟨v, w, ha, hb, -⟩ := h.cases name
    · rw [ha, hb]
      exact similarOutcome_same _
    · rw [ha, hb]
      exact .ok trivial
    · rw [ha, hb]
      exact .ok trivial

theorem similarOutcome_valueOfToken (h : a.SameShape b) (t : Token) :
    SimilarOutcome AnyTwo (valueOfToken a t) (valueOfToken b t) := by
  cases t with
  | number word =>
    rw [valueOfToken, valueOfToken]
    by_cases hnumeral : isNumeral word.toList = true
    · rw [if_pos hnumeral, if_pos hnumeral]
      cases Number.read? word.toList with
      | some x => exact .ok trivial
      | none => exact similarOutcome_same _
    · rw [if_neg hnumeral, if_neg hnumeral]
      exact similarOutcome_valueOfName h word
  | ident name => exact similarOutcome_valueOfName h name
  | str contents => exact .ok trivial
  | symbol s => exact similarOutcome_same _

/-- What is under a name in front of a square bracket may differ in its type, if it is no array. -/
theorem similarOutcome_itemsOfName (h : a.SameShape b) (name : String) :
    SimilarOutcome AnyTwo (itemsOfName a name) (itemsOfName b name) := by
  unfold itemsOfName
  obtain ⟨ha, hb⟩ | ⟨items, items', ha, hb⟩ | ⟨v, w, ha, hb, hv, hw⟩ := h.cases name
  · rw [ha, hb]
    exact similarOutcome_same _
  · rw [ha, hb]
    exact .ok trivial
  · rw [ha, hb]
    simp only [hv, hw]
    exact .error (.notAnArray name v.type w.type)

/-- Whether a call has a value depends on the number of arguments alone. -/
theorem similarOutcome_valueOfCall (f : Function) {xs ys : List Float}
    (h : xs.length = ys.length) :
    SimilarOutcome AnyTwo (valueOfCall f xs) (valueOfCall f ys) := by
  unfold valueOfCall Function.call
  rw [h]
  cases f.arity.fault? ys.length with
  | some fault => exact similarOutcome_same _
  | none => exact .ok trivial

/-! ### Rules and evaluations -/

/-- **Every rule** takes the same course if the evaluations of the parts do. -/
theorem Shape.similar_run {inner inner' : List Token → Evaluation Value} (h : a.SameShape b)
    (hparts : ∀ part ∈ s.parts, Evaluation.Similar AnyTwo (inner part) (inner' part)) :
    Evaluation.Similar AnyTwo (s.run a inner) (s.run b inner') := by
  cases s with
  | empty => exact similar_fail _
  | unreadable slice => exact similar_fail _
  | binary left op right =>
    have hleft := hparts left (by simp [parts])
    have hright := hparts right (by simp [parts])
    rw [run, run]
    refine similar_andThen (similar_note _) fun _ _ _ => ?_
    refine similar_andThen hleft fun x x' _ => similar_andThen hright fun y y' _ => ?_
    exact similar_done trivial
  | group interior => exact hparts interior (by simp [parts])
  | call name interior =>
    have hname : SimilarOutcome Eq (functionOfName name) (functionOfName name) := by
      cases functionOfName name with
      | ok f => exact .ok rfl
      | error e => exact similarOutcome_same e
    refine similar_andThen (similar_ofExcept hname) fun f f' hf => ?_
    subst hf
    have hargs : ∀ arg ∈ arguments interior,
        Evaluation.Similar AnyTwo (andThen (inner arg) fun v => done v.toNumber)
          (andThen (inner' arg) fun v => done v.toNumber) := fun arg harg =>
      similar_andThen (hparts arg harg) fun v v' _ => similar_done trivial
    refine similar_andThen (similar_each hargs) fun xs ys hlength => ?_
    exact similar_ofExcept (similarOutcome_valueOfCall f hlength)
  | index name position =>
    have hposition := hparts position (by simp [parts])
    refine similar_andThen (similar_ofExcept (similarOutcome_itemsOfName h name)) fun _ _ _ => ?_
    exact similar_andThen hposition fun v v' _ => similar_done trivial
  | not operand =>
    exact similar_andThen (hparts operand (by simp [parts])) fun v v' _ => similar_done trivial
  | negative operand =>
    exact similar_andThen (hparts operand (by simp [parts])) fun v v' _ => similar_done trivial
  | single t => exact similar_ofExcept (similarOutcome_valueOfToken h t)

/-- **Bindings of the same shape make evaluations of the same course.** -/
theorem similar_evaluate (h : a.SameShape b) (p : Precedence) (maxDepth : Nat) (ts : List Token) :
    Evaluation.Similar AnyTwo (evaluate ⟨a, p, maxDepth⟩ ts) (evaluate ⟨b, p, maxDepth⟩ ts) := by
  induction ts using Shape.induction p with
  | step ts ih =>
    rw [evaluate_eq, evaluate_eq]
    exact similar_nested (Shape.similar_run h ih) _ ts

/-- **Values do not decide the course of an evaluation**: under bindings of the same names, with
arrays under the same of them, a slice is split at the same operators in the same order, and it has
a value under both or fails under both, with the same error up to the type found in place of an
array. -/
theorem splits_eq_and_similar_of_sameShape (a b : Bindings) (p : Precedence) (maxDepth : Nat)
    (ts : List Token) (depth : Nat) (h : a.SameShape b) :
    (evaluate ⟨a, p, maxDepth⟩ ts depth).splits = (evaluate ⟨b, p, maxDepth⟩ ts depth).splits ∧
    ((∃ v, (evaluate ⟨a, p, maxDepth⟩ ts depth).outcome = .ok v) ↔
      ∃ v, (evaluate ⟨b, p, maxDepth⟩ ts depth).outcome = .ok v) ∧
    ∀ e e', (evaluate ⟨a, p, maxDepth⟩ ts depth).outcome = .error e →
      (evaluate ⟨b, p, maxDepth⟩ ts depth).outcome = .error e' → e.Similar e' := by
  obtain ⟨houtcome, -, htrace⟩ := similar_evaluate h p maxDepth ts depth
  refine ⟨?_, houtcome.exists_ok_iff, fun e e' he he' => houtcome.similar he he'⟩
  rw [Run.splits, Run.splits, htrace]

/-- A number against a text, a longer array against a shorter one, and two types that are no arrays:
the array and the number are read, and then both evaluations fail. -/
theorem splits_eq_and_similar_of_sameShape_of_index :
    let a : Bindings := .ofList [("x", .number 1), ("xs", .array [.null, .null]), ("n", .bool true)]
    let b : Bindings := .ofList [("x", .string "y"), ("xs", .array []), ("n", .null)]
    let ts : List Token := [.ident "xs", .symbol (.opening .square), .ident "x",
      .symbol (.closing .square), .symbol (.operator (.logical .or)), .ident "n",
      .symbol (.opening .square), .number "0", .symbol (.closing .square)]
    a.SameShape b ∧
      (evaluate ⟨a, .legacy, 64⟩ ts 0).splits = (evaluate ⟨b, .legacy, 64⟩ ts 0).splits ∧
      ((∃ v, (evaluate ⟨a, .legacy, 64⟩ ts 0).outcome = .ok v) ↔
        ∃ v, (evaluate ⟨b, .legacy, 64⟩ ts 0).outcome = .ok v) ∧
      ∀ e e', (evaluate ⟨a, .legacy, 64⟩ ts 0).outcome = .error e →
        (evaluate ⟨b, .legacy, 64⟩ ts 0).outcome = .error e' → e.Similar e' := by
  intro a b ts
  have hshape : a.SameShape b := by
    constructor
    · intro name
      simp only [a, b, Directory.ofList, Directory.insertAll, List.foldl, Directory.get?_insert]
      grind
    · intro name
      simp only [a, b, Directory.ofList, Directory.insertAll, List.foldl, Directory.get?_insert]
      grind
  exact ⟨hshape, splits_eq_and_similar_of_sameShape a b .legacy 64 ts 0 hshape⟩

end RuleConditions
