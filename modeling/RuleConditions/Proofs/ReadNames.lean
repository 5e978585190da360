import RuleConditions.Proofs.Evaluation

/-!
# The names an evaluation reads

`readNames ts` are the names whose bindings the value of a slice can depend on: the names in front
of a square bracket, and the words that stand alone and have no fixed meaning.  What a token reads
depends on the token behind it, so the parts of a slice must not be cut off in front of an opening
bracket; none ever is (`Shape.exists_append_of_mem_parts`), and the names of the parts are names of
the slice (`Shape.readNames_subset`).  Bindings that agree on the names that are read make the same
runs (`evaluate_congr`).
-/

namespace RuleConditions

variable {a b : Bindings} {s : Shape} {t : Token} {ts part before after back : List Token}
  {name : String}

/-! ### Names read -/

/-- The names whose bindings a token may need in front of these tokens.  A name in front of a round
bracket is called, and functions are not among the bindings. -/
def Token.reads : Token → (after : List Token) → List String
  | .ident name, .symbol (.opening .square) :: _ => [name]
  | .ident _, .symbol (.opening .round) :: _ => []
  | .ident name, _ => if (keyword? name).isSome || (constant? name).isSome then [] else [name]
  | .number word, _ =>
    if isNumeral word.toList || (keyword? word).isSome || (constant? word).isSome then []
    else [word]
  | .str _, _ | .symbol _, _ => []

/-- The names whose bindings a slice may need. -/
def readNames : List Token → List String
  | [] => []
  | t :: ts => t.reads ts ++ readNames ts

theorem mem_readNames_iff :
    name ∈ readNames ts ↔ ∃ before t after, ts = before ++ t :: after ∧ name ∈ t.reads after := by
  induction ts with
  | nil => simp [readNames]
  | cons t ts ih =>
    rw [readNames, List.mem_append, ih]
    constructor
    · rintro (h | ⟨before, u, after, rfl, h⟩)
      · exact ⟨[], t, ts, rfl, h⟩
      · exact ⟨t :: before, u, after, rfl, h⟩
    · rintro ⟨before, u, after, hts, h⟩
      cases before with
      | nil =>
        obtain ⟨rfl, rfl⟩ := List.cons.inj hts
        exact .inl h
      | cons w before =>
        obtain ⟨rfl, rfl⟩ := List.cons.inj hts
        exact .inr ⟨before, u, after, rfl, h⟩

/-- Of the tokens behind a name only the next one matters, and only whether it opens a bracket. -/
theorem Token.reads_ident (name : String) (after : List Token) :
    (Token.ident name).reads after =
      if after.head? = some (.symbol (.opening .square)) then [name]
      else if after.head? = some (.symbol (.opening .round)) then []
      else if (keyword? name).isSome || (constant? name).isSome then [] else [name] := by
  cases after with
  | nil => rfl
  | cons u after =>
    rcases u with _ | _ | _ | (_ | _ | (_ | _) | _ | _) <;> rfl

/-- Only an opening bracket behind the last token changes what it reads. -/
theorem Token.reads_append (hback : ∀ b, back.head? ≠ some (.symbol (.opening b))) (t : Token)
    (after : List Token) : t.reads (after ++ back) = t.reads after := by
  cases t with
  | number word => rfl
  | str contents => rfl
  | symbol s => rfl
  | ident name =>
    cases after with
    | cons u after =>
      rw [List.cons_append, reads_ident, reads_ident, List.head?_cons, List.head?_cons]
    | nil => rw [List.nil_append, reads_ident, reads_ident, if_neg (hback _), if_neg (hback _)]; rfl

/-- What is read of some tokens is read of them among others, with no opening bracket behind. -/
theorem mem_readNames_append (hback : ∀ b, back.head? ≠ some (.symbol (.opening b)))
    (h : name ∈ readNames ts) (front : List Token) : name ∈ readNames (front ++ ts ++ back) := by
  obtain ⟨before, t, after, rfl, hname⟩ := mem_readNames_iff.mp h
  refine mem_readNames_iff.mpr ⟨front ++ before, t, after ++ back, by simp, ?_⟩
  rwa [Token.reads_append hback]

/-! ### Names of a shape -/

namespace Shape

/-- The names that the rule for a shape looks up itself. -/
def reads : Shape → List String
  | .index name _ => [name]
  | .single t => t.reads []
  | _ => []

/-- The names that a rule looks up are names of the slice. -/
theorem reads_subset (h : name ∈ s.reads) : name ∈ readNames s.tokens := by
  cases s with
  | index other position =>
    rw [tokens, readNames]
    exact List.mem_append_left _ h
  | single t =>
    rw [tokens, readNames]
    exact List.mem_append_left _ h
  | _ => exact absurd h (by simp [reads])

/-- **The names of the parts are names of the slice.** -/
theorem readNames_subset (hpart : part ∈ s.parts) (h : name ∈ readNames part) :
    name ∈ readNames s.tokens := by
  obtain ⟨front, back, htokens, -, hback⟩ := exists_append_of_mem_parts hpart
  rw [htokens]
  exact mem_readNames_append hback h front

end Shape

/-! ### Bindings that agree -/

theorem valueOfName_congr (h : (keyword? name).isSome = false → (constant? name).isSome = false →
    a.get? name = b.get? name) : valueOfName a name = valueOfName b name := by
  unfold valueOfName fixedName?
  cases hkey : keyword? name with
  | some v => rfl
  | none =>
    cases hconst : constant? name with
    | some x => rfl
    | none =>
      have hsame := h (by rw [hkey]; rfl) (by rw [hconst]; rfl)
      rw [hsame]

theorem valueOfToken_congr (h : ∀ name ∈ t.reads [], a.get? name = b.get? name) :
    valueOfToken a t = valueOfToken b t := by
  cases t with
  | str contents => rfl
  | symbol s => rfl
  | ident name =>
    apply valueOfName_congr
    intro hkey hconst
    exact h name (by simp [Token.reads, hkey, hconst])
  | number word =>
    rw [valueOfToken, valueOfToken]
    by_cases hnumeral : isNumeral word.toList = true
    · rw [if_pos hnumeral, if_pos hnumeral]
    · rw [if_neg hnumeral, if_neg hnumeral]
      apply valueOfName_congr
      intro hkey hconst
      exact h word (by simp [Token.reads, hnumeral, hkey, hconst])

/-- A rule depends on the bindings only through the names it looks up. -/
theorem Shape.run_congr_bindings (h : ∀ name ∈ s.reads, a.get? name = b.get? name)
    (inner : List Token → Evaluation Value) : s.run a inner = s.run b inner := by
  cases s with
  | single t => rw [run, run, valueOfToken_congr h]
  | index name position =>
    have hsame := h name (List.mem_singleton_self name)
    have hitems : itemsOfName a name = itemsOfName b name := by
      unfold itemsOfName
      rw [hsame]
    rw [run, run, hitems]
  | _ => rfl

/-- **Bindings that agree on the names that are read** make the same evaluation. -/
theorem evaluate_congr (h : ∀ name ∈ readNames ts, a.get? name = b.get? name) (p : Precedence)
    (maxDepth : Nat) : evaluate ⟨a, p, maxDepth⟩ ts = evaluate ⟨b, p, maxDepth⟩ ts := by
  induction ts using Shape.induction p with
  | step ts ih =>
    have htokens := Shape.tokens_read p ts
    have hreads : ∀ name ∈ (Shape.read p ts).reads, a.get? name = b.get? name := by
      intro name hname
      have hmem := Shape.reads_subset hname
      rw [htokens] at hmem
      exact h name hmem
    have hparts : ∀ part ∈ (Shape.read p ts).parts,
        evaluate ⟨a, p, maxDepth⟩ part = evaluate ⟨b, p, maxDepth⟩ part := by
      intro part hpart
      refine ih part hpart fun name hname => ?_
      have hmem := Shape.readNames_subset hpart hname
      rw [htokens] at hmem
      exact h name hmem
    rw [evaluate_eq, evaluate_eq]
    simp only
    rw [Shape.run_congr_bindings hreads, Shape.run_congr b hparts]
    rfl

/-- Whether a name is only called in a slice, or stands there for a keyword or a constant. -/
def OnlyCalledOrFixed (name : String) (ts : List Token) : Prop :=
  .number name ∉ ts ∧ ∀ before after, ts = before ++ .ident name :: after →
    after.head? = some (.symbol (.opening .round)) ∨
      (((keyword? name).isSome ∨ (constant? name).isSome) ∧
        after.head? ≠ some (.symbol (.opening .square)))

/-- A token reads no name but its own text. -/
theorem Token.eq_of_mem_reads (h : name ∈ t.reads after) : t = .ident name ∨ t = .number name := by
  cases t with
  | str contents => exact absurd h (by simp [reads])
  | symbol s => exact absurd h (by simp [reads])
  | number word =>
    rw [reads] at h
    split at h
    · exact absurd h (by simp)
    · exact .inr (by rw [List.mem_singleton.mp h])
  | ident other =>
    have hsubset : (Token.ident other).reads after ⊆ [other] := by
      rw [reads_ident]
      split
      · simp
      · split
        · simp
        · split <;> simp
    exact .inl (by rw [List.mem_singleton.mp (hsubset h)])

/-- A name that is read is indexed, or it stands alone without a fixed meaning. -/
theorem Token.of_mem_reads_ident (h : name ∈ (Token.ident name).reads after) :
    after.head? = some (.symbol (.opening .square)) ∨
      (after.head? ≠ some (.symbol (.opening .round)) ∧
        ¬((keyword? name).isSome ∨ (constant? name).isSome)) := by
  rw [reads_ident] at h
  by_cases hsquare : after.head? = some (.symbol (.opening .square))
  · exact .inl hsquare
  · rw [if_neg hsquare] at h
    by_cases hround : after.head? = some (.symbol (.opening .round))
    · rw [if_pos hround] at h
      exact absurd h (by simp)
    · rw [if_neg hround] at h
      refine .inr ⟨hround, fun hfixed => ?_⟩
      rw [if_pos ((Bool.or_eq_true _ _).mpr hfixed)] at h
      exact absurd h (by simp)

theorem OnlyCalledOrFixed.not_mem_readNames (h : OnlyCalledOrFixed name ts) :
    name ∉ readNames ts := by
  intro hmem
  obtain ⟨before, t, after, rfl, hname⟩ := mem_readNames_iff.mp hmem
  obtain rfl | rfl := Token.eq_of_mem_reads hname
  · obtain hsquare | ⟨hround, hnone⟩ := Token.of_mem_reads_ident hname
    · obtain hcalled | ⟨-, hnot⟩ := h.2 before after rfl
      · rw [hsquare] at hcalled
        exact absurd hcalled (by simp)
      · exact hnot hsquare
    · obtain hcalled | ⟨hfixed, -⟩ := h.2 before after rfl
      · exact hround hcalled
      · exact hnone hfixed
  · exact h.1 (by simp)

/-- **An evaluation depends only on the names that are read**: where two bindings agree on them, the
outcome and the splits are the same, and a name that is only called, or stands for a keyword or a
constant, can be bound to anything. -/
theorem outcome_and_splits_of_readNames (a b : Bindings) (p : Precedence) (maxDepth : Nat)
    (ts : List Token) (depth : Nat) (h : ∀ name ∈ readNames ts, a.get? name = b.get? name) :
    (evaluate ⟨a, p, maxDepth⟩ ts depth).outcome = (evaluate ⟨b, p, maxDepth⟩ ts depth).outcome ∧
    (evaluate ⟨a, p, maxDepth⟩ ts depth).splits = (evaluate ⟨b, p, maxDepth⟩ ts depth).splits ∧
    ∀ name value, OnlyCalledOrFixed name ts →
      (evaluate ⟨a.insert name value, p, maxDepth⟩ ts depth).outcome =
        (evaluate ⟨a, p, maxDepth⟩ ts depth).outcome ∧
      (evaluate ⟨a.insert name value, p, maxDepth⟩ ts depth).splits =
        (evaluate ⟨a, p, maxDepth⟩ ts depth).splits := by
  rw [evaluate_congr h]
  refine ⟨rfl, rfl, fun name value honly => ?_⟩
  have hsame : ∀ other ∈ readNames ts, (a.insert name value).get? other = b.get? other := by
    intro other hother
    have hne : other ≠ name := by
      rintro rfl
      exact honly.not_mem_readNames hother
    rw [Directory.get?_insert, if_neg hne]
    exact h other hother
  rw [evaluate_congr hsame]
  exact ⟨rfl, rfl⟩

/-- A called name, a constant and a name that does not occur are bound to different values. -/
theorem outcome_and_splits_of_readNames_of_call :
    let a : Bindings := .ofList [("x", .bool true), ("xs", .array [.null]), ("max", .null),
      ("PI", .string "3")]
    let b : Bindings := .ofList [("y", .null), ("x", .bool true), ("xs", .array [.null])]
    let ts : List Token := [.ident "max", .symbol (.opening .round), .ident "x", .symbol .comma,
      .ident "PI", .symbol (.closing .round), .symbol (.operator (.comparison .greater)),
      .ident "xs", .symbol (.opening .square), .number "0", .symbol (.closing .square)]
    (∀ name ∈ readNames ts, a.get? name = b.get? name) ∧
      (evaluate ⟨a, .conventional, 64⟩ ts 0).outcome =
        (evaluate ⟨b, .conventional, 64⟩ ts 0).outcome ∧
      (evaluate ⟨a, .conventional, 64⟩ ts 0).splits =
        (evaluate ⟨b, .conventional, 64⟩ ts 0).splits := by
  intro a b ts
  have hnames : readNames ts = ["x", "xs"] := by decide
  have hsame : ∀ name ∈ readNames ts, a.get? name = b.get? name := by
    rw [hnames]
    simp [a, b, Directory.ofList, Directory.insertAll]
  obtain ⟨houtcome, hsplits, -⟩ :=
    outcome_and_splits_of_readNames a b .conventional 64 ts 0 hsame
  exact ⟨hsame, houtcome, hsplits⟩

end RuleConditions
