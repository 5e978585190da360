import RuleConditions.Proofs.NaN
import RuleConditions.Proofs.Numerals

/-!
# Texts as numbers

A text that counts as a number is meant to be blank, a numeral or `Infinity` with its sign
(`IsNumeric`); all others are meant to be NaN and so without order.  `CountsRightly` says that a text
counts as it is meant to.

The reader of names takes more for infinity: `inf`, and both words whatever the case of their letters.
These texts are the only ones that do not count as they are meant to (`countsRightly_iff`).
-/

namespace RuleConditions.Value

open Number (Mark Numeral IsNearest sign? named? read? nan)

/-- The word that stands for infinity. -/
def infinityWord : List Char := "Infinity".toList

/-- The texts that are meant to count as numbers, without the blanks around them. -/
def IsNumeric (cs : List Char) : Prop :=
  cs = [] ∨ (∃ n : Numeral, cs = n.text) ∨ ∃ mark : Mark, cs = mark.text ++ infinityWord

/-- Whether a word is read as infinity. -/
def namesInfinity (word : List Char) : Bool :=
  word.map Char.toLower = "inf".toList ∨ word.map Char.toLower = "infinity".toList

/-- The word is read as infinity and is not the one meant to stand for it. -/
def IsMisnamed (cs : List Char) : Prop :=
  ∃ (mark : Mark) (word : List Char), cs = mark.text ++ word ∧ namesInfinity word = true ∧
    word ≠ infinityWord

/-- The text counts as the number it is meant to count as. -/
structure CountsRightly (text : String) : Prop where
  blank : Text.trim text.toList = [] → numberOfText text = 0
  numeral (n : Numeral) : Text.trim text.toList = n.text →
    IsNearest n.value (numberOfText text) ∧ sign? (numberOfText text) = some n.mark.sign
  infinity (mark : Mark) : Text.trim text.toList = mark.text ++ infinityWord →
    numberOfText text = mark.applied Number.infinity
  other : ¬ IsNumeric (Text.trim text.toList) → (numberOfText text).isNaN = true ∧
    ∀ (x : Float) (op : ComparisonOp),
      op.apply (.string text) (.number x) = op.isDenial ∧
      op.apply (.number x) (.string text) = op.isDenial

/-! ### Names -/

theorem named?_of_namesInfinity {word : List Char} (h : namesInfinity word = true) :
    named? word = some Number.infinity := by
  unfold named?
  exact if_pos (of_decide_eq_true h)

theorem eq_of_toLower_eq {c : Char} (h : c.toLower = 'i') : c = 'i' ∨ c = 'I' := by
  unfold Char.toLower at h
  split at h
  · have hval : c.val + 32 = 105 := congrArg Char.val h
    exact .inr (Char.ext ((UInt32.add_left_inj 32).mp hval))
  · exact .inl h

theorem exists_cons_of_namesInfinity {word : List Char} (h : namesInfinity word = true) :
    ∃ c cs, word = c :: cs ∧ (c = 'i' ∨ c = 'I') := by
  cases word with
  | nil => exact absurd h (by decide)
  | cons c cs =>
    obtain h | h := of_decide_eq_true h
    · exact ⟨c, cs, rfl, eq_of_toLower_eq (List.cons.inj h).1⟩
    · exact ⟨c, cs, rfl, eq_of_toLower_eq (List.cons.inj h).1⟩

theorem readDecimal?_of_namesInfinity {word : List Char} (h : namesInfinity word = true) :
    Number.readDecimal? word = none := by
  obtain ⟨c, cs, rfl, rfl | rfl⟩ := exists_cons_of_namesInfinity h
  · rfl
  · rfl

theorem splitSign_of_namesInfinity (mark : Mark) {word : List Char}
    (h : namesInfinity word = true) :
    Number.splitSign (mark.text ++ word) = (mark.isMinus, word) := by
  obtain ⟨c, cs, rfl, hc⟩ := exists_cons_of_namesInfinity h
  refine Number.splitSign_text mark fun d hd => ?_
  obtain rfl : c = d := Option.some.inj hd
  obtain rfl | rfl := hc <;> decide

theorem read?_of_namesInfinity (mark : Mark) {word : List Char} (h : namesInfinity word = true) :
    read? (mark.text ++ word) = some (mark.applied Number.infinity) := by
  rw [Number.read?_eq, splitSign_of_namesInfinity mark h, readDecimal?_of_namesInfinity h,
    named?_of_namesInfinity h]
  rfl

theorem namesInfinity_or_isNaN {word : List Char} {x : Float} (h : named? word = some x) :
    namesInfinity word = true ∨ x = nan := by
  unfold named? at h
  dsimp only at h
  split at h
  · rename_i hword
    exact .inl (decide_eq_true hword)
  split at h
  · exact .inr (Option.some.inj h).symm
  · cases h

/-! ### Counting -/

theorem numberOfText_eq {text : String} (h : Text.trim text.toList ≠ []) :
    numberOfText text = (read? (Text.trim text.toList)).getD nan := by
  unfold numberOfText
  split
  · rename_i hnil
    exact absurd hnil h
  · rfl

theorem numberOfText_of_read? {text : String} {x : Float}
    (h : read? (Text.trim text.toList) = some x) : numberOfText text = x := by
  have hne : Text.trim text.toList ≠ [] := by
    intro hnil
    rw [hnil] at h
    cases h
  rw [numberOfText_eq hne, h]
  rfl

theorem isNaN_applied (mark : Mark) {x : Float} (h : x.isNaN = true) :
    (mark.applied x).isNaN = true := by
  cases mark with
  | none => exact h
  | plus => exact h
  | minus => exact Number.isNaN_neg h

theorem apply_string_number {text : String} (h : (numberOfText text).isNaN = true) (x : Float)
    (op : ComparisonOp) :
    op.apply (.string text) (.number x) = op.isDenial ∧
      op.apply (.number x) (.string text) = op.isDenial := by
  have hincomparable : (number x).Incomparable (.string text) := incomparable_of_isNaN (.inr h)
  exact ⟨op.apply_of_incomparable hincomparable.symm, op.apply_of_incomparable hincomparable⟩

/-- A misnamed infinity is no numeric text: the mark of its sign and the word behind it can be told
apart in one way only. -/
theorem not_isNumeric_of_isMisnamed {cs : List Char} (h : IsMisnamed cs) : ¬ IsNumeric cs := by
  obtain ⟨mark, word, rfl, hword, hne⟩ := h
  have hsplit := splitSign_of_namesInfinity mark hword
  rintro (hnil | ⟨n, hn⟩ | ⟨mark', hinfinity⟩)
  · obtain rfl := (List.append_eq_nil_iff.mp hnil).2
    cases hword
  · rw [hn, Numeral.text, Number.splitSign_text n.mark n.head?_unsigned] at hsplit
    have hunsigned : n.unsigned = word := congrArg Prod.snd hsplit
    have hread := Number.readDecimal?_unsigned n
    rw [hunsigned, readDecimal?_of_namesInfinity hword] at hread
    cases hread
  · rw [hinfinity, splitSign_of_namesInfinity mark' (by decide)] at hsplit
    exact hne (congrArg Prod.snd hsplit).symm

theorem numberOfText_of_namesInfinity {text : String} {mark : Mark} {word : List Char}
    (htext : Text.trim text.toList = mark.text ++ word) (hword : namesInfinity word = true) :
    numberOfText text = mark.applied Number.infinity := by
  apply numberOfText_of_read?
  rw [htext]
  exact read?_of_namesInfinity mark hword

theorem isNaN_applied_infinity (mark : Mark) : (mark.applied Number.infinity).isNaN = false := by
  cases mark <;> decide +kernel

theorem not_countsRightly_of_isMisnamed {text : String} (h : IsMisnamed (Text.trim text.toList)) :
    ¬ CountsRightly text := by
  intro hright
  have hnan := (hright.other (not_isNumeric_of_isMisnamed h)).1
  obtain ⟨mark, word, htext, hword, -⟩ := h
  rw [numberOfText_of_namesInfinity htext hword, isNaN_applied_infinity] at hnan
  cases hnan

theorem isNaN_of_not_isNumeric {text : String} (h : ¬ IsMisnamed (Text.trim text.toList))
    (hnumeric : ¬ IsNumeric (Text.trim text.toList)) : (numberOfText text).isNaN = true := by
  cases hread : read? (Text.trim text.toList) with
  | none =>
    rw [numberOfText_eq fun hnil => hnumeric (.inl hnil), hread]
    exact Number.isNaN_nan
  | some x =>
    rw [numberOfText_of_read? hread]
    obtain hnumeral | ⟨mark, word, y, htext, hword, rfl⟩ := Number.numeral_or_named_of_read? hread
    · exact absurd (.inr (.inl hnumeral)) hnumeric
    obtain hinfinity | rfl := namesInfinity_or_isNaN hword
    · -- the name is the right one, or else it would be a wrong one
      by_cases hright : word = infinityWord
      · exact absurd (.inr (.inr ⟨mark, by rw [htext, hright]⟩)) hnumeric
      · exact absurd ⟨mark, word, htext, hinfinity, hright⟩ h
    · exact isNaN_applied mark Number.isNaN_nan

/-- **All texts but the misnamed infinities count rightly**, and these count as infinity. -/
theorem countsRightly_iff (text : String) :
    (CountsRightly text ↔ ¬ IsMisnamed (Text.trim text.toList)) ∧
    ∀ (mark : Mark) (word : List Char), Text.trim text.toList = mark.text ++ word →
      namesInfinity word = true → numberOfText text = mark.applied Number.infinity := by
  refine ⟨⟨fun h hmisnamed => not_countsRightly_of_isMisnamed hmisnamed h, fun h => ?_⟩,
    fun mark word => numberOfText_of_namesInfinity⟩
  refine ⟨fun hnil => ?_, fun n hn => ?_, fun mark hmark => ?_, fun hnumeric => ?_⟩
  · unfold numberOfText
    rw [hnil]
  · obtain ⟨x, hread, hx⟩ := Number.exists_isNearest_of_text n
    rw [numberOfText_of_read? (hn.symm ▸ hread)]
    exact hx
  · exact numberOfText_of_namesInfinity hmark (by decide)
  · have hnan := isNaN_of_not_isNumeric h hnumeric
    exact ⟨hnan, apply_string_number hnan⟩

/-- `inf` counts as infinity, so it is greater than every limit. -/
theorem not_countsRightly_inf :
    ¬ CountsRightly "inf" ∧ ¬ IsNumeric (Text.trim "inf".toList) ∧
      (numberOfText "inf").isNaN = false ∧ greater (.string "inf") (.number 5) = true := by
  have hmisnamed : IsMisnamed (Text.trim "inf".toList) :=
    ⟨.none, "inf".toList, by decide +kernel, by decide, by decide⟩
  refine ⟨not_countsRightly_of_isMisnamed hmisnamed, not_isNumeric_of_isMisnamed hmisnamed, ?_, ?_⟩
  · decide +kernel
  · decide +kernel

end RuleConditions.Value
