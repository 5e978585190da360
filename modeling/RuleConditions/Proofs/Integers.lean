import RuleConditions.Judgement
import RuleConditions.Proofs.Doubles.Sums
import RuleConditions.Proofs.Evaluation
import RuleConditions.Proofs.Ordering
import RuleConditions.Proofs.Rendering

/-!
# Whole numbers under comparison

Whole numbers of up to 53 bits, and the next one, are doubles themselves, so every comparison of
them is that of the whole numbers (`ComparisonOp.apply_ofInt`).  A greater one is rounded, and then
two may become the same, but their order is never turned round (`ComparisonOp.apply_ofInt_of_le`).

A difference of two of them may be rounded too, but it is zero only if they are the same.
-/

namespace RuleConditions

open Number

/-! ### Whole numbers as doubles -/

theorem Number.rational?_ofInt {n : ℤ} (h : |n| ≤ 2 ^ 53) : rational? (ofInt n) = some (n : ℚ) :=
  (isNearest_ofInt n).rational?_eq (isRepresentable_intCast h)

/-- Of two whole numbers the greater does not become the smaller double. -/
theorem Number.exists_place?_ofInt {n m : ℤ} (h : n ≤ m) :
    ∃ r r', place? (ofInt n) = some r ∧ place? (ofInt m) = some r' ∧ r ≤ r' := by
  obtain ⟨r, hr, -⟩ := isNearest_ofInt n
  obtain ⟨r', hr', -⟩ := isNearest_ofInt m
  refine ⟨r, r', hr, hr', ?_⟩
  obtain hlt | rfl := h.lt_or_eq
  · exact (isNearest_ofInt n).le_of_lt (isNearest_ofInt m) (Int.cast_lt.mpr hlt) hr hr'
  · exact (Option.some.inj (hr.symm.trans hr')).le

/-! ### Comparisons -/

/-- What a comparison says of two whole numbers. -/
def ComparisonOp.onInts : ComparisonOp → ℤ → ℤ → Bool
  | .equal, n, m | .identical, n, m => n = m
  | .unequal, n, m | .distinct, n, m => n ≠ m
  | .less, n, m => n < m
  | .greater, n, m => n > m
  | .atMost, n, m => n ≤ m
  | .atLeast, n, m => n ≥ m

/-- What a comparison says of two numbers in this order. -/
def ComparisonOp.onOrder : ComparisonOp → Option Ordering → Bool
  | .equal, o | .identical, o => o == some .eq
  | .unequal, o | .distinct, o => o != some .eq
  | .less, o => o == some .lt
  | .greater, o => o == some .gt
  | .atMost, o => o == some .lt || o == some .eq
  | .atLeast, o => o == some .gt || o == some .eq

theorem ComparisonOp.onInts_eq_onOrder (op : ComparisonOp) (n m : ℤ) :
    op.onInts n m = op.onOrder (some (cmp n m)) := by
  obtain h | rfl | h := lt_trichotomy n m
  · rw [(cmp_eq_lt_iff n m).mpr h]
    cases op <;> simp [onInts, onOrder, h, h.le, h.ne, h.not_gt]
  · rw [cmp_self_eq_eq]
    cases op <;> simp [onInts, onOrder]
  · rw [(cmp_eq_gt_iff n m).mpr h]
    cases op <;> simp [onInts, onOrder, h, h.le, h.ne', h.not_gt]

/-- Of numbers the order decides every comparison. -/
theorem ComparisonOp.apply_number (op : ComparisonOp) (x y : Float) :
    op.apply (.number x) (.number y) =
      op.onOrder (Option.map₂ cmp (place? x) (place? y)) := by
  have hcompare : Value.compare (.number x) (.number y) =
      Option.map₂ cmp (place? x) (place? y) := by
    rw [← map₂_cmp_place?]
    exact Value.compareNumbers_eq x y
  have hequal : (x == y) = (Option.map₂ cmp (place? x) (place? y) == some .eq) := by
    rw [Bool.eq_iff_iff, beq_iff, map₂_cmp_place?, beq_iff_eq]
  rw [← hcompare] at hequal ⊢
  cases op with
  | equal | identical => exact hequal
  | unequal | distinct => exact congrArg (!·) hequal
  | less | greater | atMost | atLeast => rfl

/-- **Small whole numbers compare as they are.** -/
theorem ComparisonOp.apply_ofInt (op : ComparisonOp) {n m : ℤ} (hn : |n| ≤ 2 ^ 53)
    (hm : |m| ≤ 2 ^ 53) : op.apply (.number (ofInt n)) (.number (ofInt m)) = op.onInts n m := by
  have hcmp : cmp (n : ℚ) m = cmp n m := Int.cast_strictMono.cmp_map_eq n m
  rw [apply_number, place?_of_rational? (rational?_ofInt hn),
    place?_of_rational? (rational?_ofInt hm), Option.map₂_some_some, hcmp, onInts_eq_onOrder]

/-- The bound is the greatest possible one. -/
example : (ofInt (2 ^ 53) == ofInt (2 ^ 53 + 1)) = true := by decide +kernel

/-- **All whole numbers keep their order**, though two of them may become one double. -/
theorem ComparisonOp.apply_ofInt_of_le {n m : ℤ} (h : n ≤ m) :
    ComparisonOp.atMost.apply (.number (ofInt n)) (.number (ofInt m)) = true ∧
      ComparisonOp.greater.apply (.number (ofInt n)) (.number (ofInt m)) = false := by
  obtain ⟨r, r', hr, hr', hle⟩ := exists_place?_ofInt h
  rw [apply_number, apply_number, hr, hr', Option.map₂_some_some]
  obtain hlt | rfl := hle.lt_or_eq
  · rw [(cmp_eq_lt_iff r r').mpr hlt]
    exact ⟨rfl, rfl⟩
  · rw [cmp_self_eq_eq]
    exact ⟨rfl, rfl⟩

/-! ### Rules that are evaluated in a few steps -/

variable {scope : Scope} {depth : ℕ} {left right ts : List Token} {op : Operator} {a b : Value}

theorem outcome_of_read_binary (hdepth : depth + 1 ≤ scope.depthLimit)
    (hread : Shape.read scope.precedence ts = .binary left op right)
    (hleft : (evaluate scope left (depth + 1)).outcome = .ok a)
    (hright : (evaluate scope right (depth + 1)).outcome = .ok b) :
    (evaluate scope ts depth).outcome = .ok (op.apply a b) := by
  rw [outcome_of_read hdepth hread, Shape.value, hleft, hright]
  rfl

/-- A name has its value, under either precedence. -/
theorem outcome_ident {name : String} (hdepth : depth + 1 ≤ scope.depthLimit)
    (hvalue : valueOfName scope.bindings name = .ok a) :
    (evaluate scope [.ident name] depth).outcome = .ok a :=
  (outcome_word hdepth (by simp)).trans hvalue

/-- An operator between two names. -/
theorem outcome_between {name name' : String} (hdepth : depth + 2 ≤ scope.depthLimit)
    (ha : valueOfName scope.bindings name = .ok a)
    (hb : valueOfName scope.bindings name' = .ok b) :
    (evaluate scope [.ident name, .symbol (.operator op), .ident name'] depth).outcome =
      .ok (op.apply a b) := by
  refine outcome_of_read_binary (by omega) ?_ (outcome_ident (by omega) ha)
    (outcome_ident (by omega) hb)
  cases scope.precedence <;> cases op with
  | logical op => cases op <;> rfl
  | comparison op => cases op <;> rfl
  | arithmetic op => cases op <;> rfl

theorem valueOfToken_zero (bindings : Bindings) :
    valueOfToken bindings (.number "0") = .ok (.number 0) := by
  have hnumeral : isNumeral "0".toList = true := by decide
  have hread : Number.read? "0".toList = some 0 := by decide +kernel
  rw [valueOfToken, if_pos hnumeral, hread]

/-- A difference that is compared with zero. -/
theorem outcome_difference_equal_zero {name name' : String} (hdepth : depth + 3 ≤ scope.depthLimit)
    (ha : valueOfName scope.bindings name = .ok a)
    (hb : valueOfName scope.bindings name' = .ok b) :
    (evaluate scope [.ident name, .symbol (.operator (.arithmetic .subtract)), .ident name',
      .symbol (.operator (.comparison .equal)), .number "0"] depth).outcome =
      .ok (.bool (a.toNumber - b.toNumber == 0)) := by
  let difference : List Token :=
    [.ident name, .symbol (.operator (.arithmetic .subtract)), .ident name']
  have hleft : (evaluate scope difference (depth + 1)).outcome =
      .ok (.number (a.toNumber - b.toNumber)) := outcome_between (by omega) ha hb
  have hright : (evaluate scope [.number "0"] (depth + 1)).outcome = .ok (.number 0) :=
    (outcome_word (by omega) (by simp)).trans (valueOfToken_zero scope.bindings)
  have hread : Shape.read scope.precedence
      (difference ++ [.symbol (.operator (.comparison .equal)), .number "0"]) =
      .binary difference (.comparison .equal) [.number "0"] := by
    cases scope.precedence <;> rfl
  exact outcome_of_read_binary (by omega) hread hleft hright

/-! ### Texts -/

/-- The text of some tokens passes every check if there is room for it. -/
theorem Options.valueOf_of_textAll {o : Options} {bindings : Bindings} {text : String} {v : Value}
    (htext : Token.textAll ts = text) (hwords : ∀ t ∈ ts, t.HasWord ∧ t.ShowsContents)
    (hlength : text.length ≤ o.maxLength) (hdenied : denied? text.toList = none)
    (hcount : ts.length ≤ o.maxTokens) (hpair : bracketsPair ts)
    (hvalue : (evaluate (o.scope bindings) ts 0).outcome = .ok v) :
    o.valueOf bindings text = .ok v := by
  obtain rfl := htext
  have hread : tokenize (Token.textAll ts) = .ok ts :=
    tokenize_eq_ok_iff_readAs.mpr (readAs_textAll hwords)
  have hscreen : o.screen (Token.textAll ts) = .ok () := by
    rw [screen, if_neg (by omega), hdenied]
  have hcheck : o.checkTokens ts = .ok () := by
    rw [checkTokens, if_neg (by omega), checkPairing, if_pos hpair]
    split <;> rfl
  have htokens : o.tokens (Token.textAll ts) = .ok ts := by
    rw [tokens, hscreen, hread]
    show (o.checkTokens ts).bind (fun _ => .ok ts) = .ok ts
    rw [hcheck]
    rfl
  rw [valueOf, run, htokens]
  exact hvalue

/-- A single character of a word is a word. -/
theorem Token.hasWord_singleton {c : Char} (hname : isNameChar c = true) :
    (ofWord [c]).HasWord :=
  hasWord_ofWord (List.cons_ne_nil c []) (List.forall_mem_singleton.mpr hname)

theorem hasWord_x : (Token.ident "x").HasWord :=
  Token.hasWord_singleton (show isNameChar 'x' = true from rfl)

theorem hasWord_y : (Token.ident "y").HasWord :=
  Token.hasWord_singleton (show isNameChar 'y' = true from rfl)

theorem valueOf_comparison {o : Options} {bindings : Bindings} (hlength : 7 ≤ o.maxLength)
    (hcount : 3 ≤ o.maxTokens) (hdepth : 2 ≤ o.maxDepth) (ha : valueOfName bindings "x" = .ok a)
    (hb : valueOfName bindings "y" = .ok b) (op : ComparisonOp) :
    o.valueOf bindings ("x " ++ op.text ++ " y") = .ok (.bool (op.apply a b)) := by
  let ts : List Token := [.ident "x", .symbol (.operator (.comparison op)), .ident "y"]
  have htext : Token.textAll ts = "x " ++ op.text ++ " y" := by cases op <;> rfl
  have hwords : ∀ t ∈ ts, t.HasWord ∧ t.ShowsContents :=
    List.forall_mem_cons.mpr ⟨⟨hasWord_x, trivial⟩, List.forall_mem_cons.mpr ⟨⟨trivial, trivial⟩,
      List.forall_mem_singleton.mpr ⟨hasWord_y, trivial⟩⟩⟩
  have hshort : ("x " ++ op.text ++ " y").length ≤ 7 := by cases op <;> decide
  have hdenied : denied? ("x " ++ op.text ++ " y").toList = none := by cases op <;> decide +kernel
  have hpair : bracketsPair ts := by cases op <;> rfl
  have hlimit : 2 ≤ (o.scope bindings).depthLimit := le_min hdepth (by decide)
  exact o.valueOf_of_textAll htext hwords (hshort.trans hlength) hdenied hcount hpair
    (outcome_between hlimit ha hb)

theorem valueOf_difference {o : Options} {bindings : Bindings} (hlength : 10 ≤ o.maxLength)
    (hcount : 5 ≤ o.maxTokens) (hdepth : 3 ≤ o.maxDepth) (ha : valueOfName bindings "x" = .ok a)
    (hb : valueOfName bindings "y" = .ok b) :
    o.valueOf bindings "x - y == 0" = .ok (.bool (a.toNumber - b.toNumber == 0)) := by
  have hzero : (Token.number "0").HasWord :=
    Token.hasWord_singleton (show isNameChar '0' = true from rfl)
  have hwords : ∀ t ∈ [Token.ident "x", .symbol (.operator (.arithmetic .subtract)), .ident "y",
      .symbol (.operator (.comparison .equal)), .number "0"], t.HasWord ∧ t.ShowsContents :=
    List.forall_mem_cons.mpr ⟨⟨hasWord_x, trivial⟩, List.forall_mem_cons.mpr ⟨⟨trivial, trivial⟩,
      List.forall_mem_cons.mpr ⟨⟨hasWord_y, trivial⟩, List.forall_mem_cons.mpr ⟨⟨trivial, trivial⟩,
        List.forall_mem_singleton.mpr ⟨hzero, trivial⟩⟩⟩⟩⟩
  have hdenied : denied? "x - y == 0".toList = none := by decide +kernel
  have hlimit : 3 ≤ (o.scope bindings).depthLimit := le_min hdepth (by decide)
  exact o.valueOf_of_textAll rfl hwords hlength hdenied hcount rfl
    (outcome_difference_equal_zero hlimit ha hb)

/-- **Comparisons of whole numbers** in the variables `x` and `y` are those of the whole numbers
themselves, as far as these are doubles, and beyond that none turns their order round. -/
theorem valueOf_comparisons (o : Options) (hlength : 10 ≤ o.maxLength) (hcount : 5 ≤ o.maxTokens)
    (hdepth : 3 ≤ o.maxDepth) (bindings : Bindings) (n m : ℤ)
    (hx : bindings.get? "x" = some (.number (ofInt n)))
    (hy : bindings.get? "y" = some (.number (ofInt m))) :
    (|n| ≤ 2 ^ 53 → |m| ≤ 2 ^ 53 →
      (∀ op : ComparisonOp,
        o.valueOf bindings ("x " ++ op.text ++ " y") = .ok (.bool (op.onInts n m))) ∧
      o.valueOf bindings "x - y == 0" = .ok (.bool (n = m))) ∧
    (n ≤ m → o.valueOf bindings "x <= y" = .ok (.bool true) ∧
      o.valueOf bindings "x > y" = .ok (.bool false)) := by
  have ha : valueOfName bindings "x" = .ok (.number (ofInt n)) := by
    rw [valueOfName, show fixedName? "x" = none from rfl, Option.none_or, hx]
  have hb : valueOfName bindings "y" = .ok (.number (ofInt m)) := by
    rw [valueOfName, show fixedName? "y" = none from rfl, Option.none_or, hy]
  have hcomparison (op : ComparisonOp) : o.valueOf bindings ("x " ++ op.text ++ " y") =
      .ok (.bool (op.apply (.number (ofInt n)) (.number (ofInt m)))) :=
    valueOf_comparison (by omega) (by omega) (by omega) ha hb op
  refine ⟨fun hn hm => ⟨fun op => ?_, ?_⟩, fun h => ?_⟩
  · rw [hcomparison, op.apply_ofInt hn hm]
  · have hzero : (ofInt n - ofInt m == 0) = decide (n = m) := by
      rw [Bool.eq_iff_iff, sub_beq_zero_iff (rational?_ofInt hn) (rational?_ofInt hm),
        decide_eq_true_iff, Int.cast_inj]
    rw [valueOf_difference hlength hcount hdepth ha hb, ← hzero]
    rfl
  · obtain ⟨hatMost, hgreater⟩ := ComparisonOp.apply_ofInt_of_le h
    have hle := hcomparison .atMost
    have hgt := hcomparison .greater
    rw [hatMost] at hle
    rw [hgreater] at hgt
    exact ⟨hle, hgt⟩

/-- The two greatest whole numbers of the first part, and two beyond it that become one double. -/
theorem valueOf_comparisons_of_two_pow :
    let near : Bindings :=
      .ofList [("x", .number (ofInt (2 ^ 53 - 1))), ("y", .number (ofInt (2 ^ 53)))]
    let far : Bindings :=
      .ofList [("x", .number (ofInt (2 ^ 53))), ("y", .number (ofInt (2 ^ 53 + 1)))]
    ({} : Options).valueOf near "x < y" = .ok (.bool true) ∧
      ({} : Options).valueOf near "x - y == 0" = .ok (.bool false) ∧
      ({} : Options).valueOf far "x > y" = .ok (.bool false) := by
  intro near far
  have hnear := (valueOf_comparisons {} (by decide) (by decide) (by decide) near _ _ rfl rfl).1
    (by norm_num) (by norm_num)
  have hfar := (valueOf_comparisons {} (by decide) (by decide) (by decide) far _ _ rfl rfl).2
    (by norm_num)
  exact ⟨hnear.1 .less, hnear.2, hfar.2⟩

end RuleConditions
