import RuleConditions.Proofs.Patterns

/-!
# Denied texts inside longer ones

What is denied by itself is denied as a part of a longer text, if no word character stands right
beside it (`screen_append_of_denied`).  The rule that denies the longer text is the same or an
earlier one.

Of what stands in front of its place a pattern sees one character, and of that only whether it belongs
to a word (`Pattern.fits_congr`).  Behind its place the boundary of a word is all it sees, since the
blanks that it takes end at a character that it asks for (`Pattern.delimited`): more text behind them
brings no more blanks (`Pattern.fits_append`).
-/

namespace RuleConditions

open Text (isBlank isWord)

variable {text front after : List Char} {before before' : Option Char} {p : Pattern}

/-! ### What a pattern sees -/

/-- A row of characters that ends inside a text is the same in every longer text. -/
theorem span_append {test : Char → Bool} (hstop : text.dropWhile test ≠ []) (after : List Char) :
    (text ++ after).takeWhile test = text.takeWhile test ∧
      (text ++ after).dropWhile test = text.dropWhile test ++ after := by
  have hdrop : (text ++ after).dropWhile test = text.dropWhile test ++ after := by
    rw [List.dropWhile_append, if_neg (by simpa using hstop)]
  have hwhole : (text ++ after).takeWhile test ++ (text.dropWhile test ++ after) =
      text.takeWhile test ++ (text.dropWhile test ++ after) := by
    calc (text ++ after).takeWhile test ++ (text.dropWhile test ++ after)
        = text ++ after := by rw [← hdrop, List.takeWhile_append_dropWhile]
      _ = text.takeWhile test ++ (text.dropWhile test ++ after) := by
        rw [← List.append_assoc, List.takeWhile_append_dropWhile]
  exact ⟨List.append_cancel_right hwhole, hdrop⟩

namespace Pattern

/-- Whether a pattern asks for a character right behind all the blanks that it takes. -/
def delimited : Pattern → Bool
  | [] => true
  | .blanks _ :: .one test :: rest => delimited (.one test :: rest)
  | .blanks _ :: _ => false
  | .boundary :: rest | .one _ :: rest => delimited rest

/-- In front of its place a pattern sees whether a word goes on there. -/
theorem fits_congr (h : before.any isWord = before'.any isWord) (p : Pattern) (text : List Char) :
    p.fits before text = p.fits before' text := by
  induction p generalizing before before' text with
  | nil => rfl
  | cons piece p ih =>
    cases piece with
    | boundary => rw [fits, fits, h, ih h]
    | one test => cases text <;> rfl
    | blanks atLeast =>
      rw [fits, fits]
      -- the last of the blanks hides what stands in front of them
      cases (text.takeWhile isBlank).getLast? with
      | none => rw [Option.none_or, Option.none_or, ih h]
      | some c => rfl

/-- Behind its place a pattern sees whether a word goes on there. -/
theorem fits_append (hp : p.delimited = true) (hafter : after.head?.any isWord = false)
    (h : p.fits before text = true) : p.fits before (text ++ after) = true := by
  induction p generalizing before text with
  | nil => rfl
  | cons piece p ih =>
    cases piece with
    | boundary =>
      rw [fits, Bool.and_eq_true] at h
      have hhead : (text ++ after).head?.any isWord = text.head?.any isWord := by
        cases text with
        | nil => exact hafter
        | cons c text => rfl
      rw [fits, hhead, h.1, Bool.true_and]
      exact ih hp h.2
    | one test =>
      cases text with
      | nil => exact absurd h (by simp [fits])
      | cons c text =>
        rw [fits, Bool.and_eq_true] at h
        rw [List.cons_append, fits, h.1, Bool.true_and]
        exact ih hp h.2
    | blanks atLeast =>
      cases p with
      | nil => exact absurd hp (by simp [delimited])
      | cons next p =>
        cases next with
        | boundary => exact absurd hp (by simp [delimited])
        | blanks n => exact absurd hp (by simp [delimited])
        | one test =>
          rw [fits, Bool.and_eq_true] at h
          -- the character behind the blanks is in the text, so the blanks end before `after`
          have hstop : text.dropWhile isBlank ≠ [] := by
            intro hnil
            rw [hnil] at h
            exact absurd h.2 (by simp [fits])
          obtain ⟨htake, hdrop⟩ := span_append hstop after
          rw [fits, htake, hdrop, h.1, Bool.true_and]
          exact ih hp h.2

/-- **A pattern that occurs in a text occurs in every longer one** that has no word character right
beside the text. -/
theorem occurs_append_append (hp : p.delimited = true) (h : p.occurs text = true)
    (hfront : front.getLast?.any isWord = false) (hafter : after.head?.any isWord = false) :
    p.occurs (front ++ text ++ after) = true := by
  obtain ⟨pre, rest, rfl, hfits⟩ := exists_append_of_occurs h
  have hbefore : (front ++ pre).getLast?.any isWord = pre.getLast?.any isWord := by
    rw [List.getLast?_append]
    cases pre.getLast? with
    | none => exact hfront
    | some c => rfl
  rw [← List.append_assoc, List.append_assoc]
  refine occurs_append ?_
  rw [fits_congr hbefore]
  exact fits_append hp hafter hfits

end Pattern

/-! ### The rule that denies a text -/

theorem delimited_of_mem_denyRules : ∀ rule ∈ denyRules, rule.pattern.delimited = true := by
  decide

/-- The rule at a place of the list is the first whose pattern occurs in the text. -/
structure IsFirstRule (text : List Char) (i : Fin denyRules.length) : Prop where
  occurs : denyRules[i].pattern.occurs text = true
  first : ∀ j < i, denyRules[j].pattern.occurs text = false

/-- Where a rule's pattern occurs, it is the first rule or there is one before it. -/
theorem exists_isFirstRule {i : Fin denyRules.length}
    (h : denyRules[i].pattern.occurs text = true) : ∃ j ≤ i, IsFirstRule text j := by
  induction hn : i.val using Nat.strongRecOn generalizing i with
  | _ n ih =>
    by_cases hearlier : ∃ j < i, denyRules[j].pattern.occurs text = true
    · obtain ⟨j, hj, hoccurs⟩ := hearlier
      obtain ⟨k, hk, hfirst⟩ := ih j.val (by omega) hoccurs rfl
      exact ⟨k, by omega, hfirst⟩
    · refine ⟨i, Nat.le_refl _, h, fun j hj => ?_⟩
      rw [← Bool.not_eq_true]
      exact fun hoccurs => hearlier ⟨j, hj, hoccurs⟩

/-- A text is denied for the reason of the first rule whose pattern occurs in it. -/
theorem denied?_eq_some_iff {reason : DenyReason} :
    denied? text = some reason ↔ ∃ i, IsFirstRule text i ∧ denyRules[i].reason = reason := by
  rw [denied?, Option.map_eq_some_iff]
  constructor
  · rintro ⟨rule, hrule, rfl⟩
    obtain ⟨hoccurs, i, hi, rfl, hfirst⟩ := List.find?_eq_some_iff_getElem.mp hrule
    refine ⟨⟨i, hi⟩, ⟨hoccurs, fun j hj => ?_⟩, rfl⟩
    simpa using hfirst j.val hj
  · rintro ⟨i, hi, rfl⟩
    refine ⟨denyRules[i], List.find?_eq_some_iff_getElem.mpr ⟨hi.occurs, i.val, i.isLt, rfl, ?_⟩, rfl⟩
    intro j hj
    rw [Bool.not_eq_true']
    exact hi.first ⟨j, Nat.lt_trans hj i.isLt⟩ hj

theorem Options.screen_eq_denied_iff {o : Options} {text : String} {reason : DenyReason} :
    o.screen text = .error (.denied reason) ↔
      text.length ≤ o.maxLength ∧ denied? text.toList = some reason := by
  unfold screen
  split
  · simp only [Except.error.injEq, reduceCtorEq, false_iff]
    omega
  · cases denied? text.toList with
    | none => simp
    | some other =>
      simp
      omega

/-- **Denied texts are denied inside longer ones**: if a text is denied, so is every longer text
within the greatest length that has no word character right in front of it and none right behind it,
by the same rule or an earlier one. -/
theorem screen_append_of_denied (o : Options) (front text after : String) (reason : DenyReason)
    (h : o.screen text = .error (.denied reason))
    (hfront : front.toList.getLast?.any isWord = false)
    (hafter : after.toList.head?.any isWord = false)
    (hlength : (front ++ text ++ after).length ≤ o.maxLength) :
    ∃ i j : Fin denyRules.length, j ≤ i ∧
      IsFirstRule text.toList i ∧ denyRules[i].reason = reason ∧
      IsFirstRule (front ++ text ++ after).toList j ∧
      o.screen (front ++ text ++ after) = .error (.denied denyRules[j].reason) := by
  obtain ⟨i, hi, hreason⟩ := denied?_eq_some_iff.mp (Options.screen_eq_denied_iff.mp h).2
  have hdelimited := delimited_of_mem_denyRules denyRules[i] (List.getElem_mem i.isLt)
  have hoccurs : denyRules[i].pattern.occurs (front ++ text ++ after).toList = true := by
    rw [String.toList_append, String.toList_append]
    exact Pattern.occurs_append_append hdelimited hi.occurs hfront hafter
  obtain ⟨j, hj, hfirst⟩ := exists_isFirstRule hoccurs
  refine ⟨i, j, hj, hi, hreason, hfirst, ?_⟩
  exact Options.screen_eq_denied_iff.mpr ⟨hlength, denied?_eq_some_iff.mpr ⟨j, hfirst, rfl⟩⟩

/-- A class declaration is denied in a call as well, but there an earlier rule denies it. -/
theorem screen_append_of_denied_of_call :
    let o : Options := {}
    o.screen "class" = .error (.denied .classDeclaration) ∧
      "eval(".toList.getLast?.any isWord = false ∧ ")".toList.head?.any isWord = false ∧
      ("eval(" ++ "class" ++ ")").length ≤ o.maxLength ∧
      ∃ i j : Fin denyRules.length, j < i ∧ IsFirstRule "class".toList i ∧
        denyRules[i].reason = .classDeclaration ∧
        IsFirstRule ("eval(" ++ "class" ++ ")").toList j ∧ denyRules[j].reason = .dynamicCode := by
  intro o
  have h : o.screen "class" = .error (.denied .classDeclaration) := rfl
  have hfront : "eval(".toList.getLast?.any isWord = false := by decide
  have hafter : ")".toList.head?.any isWord = false := by decide
  have hlength : ("eval(" ++ "class" ++ ")").length ≤ o.maxLength := by decide
  obtain ⟨i, j, hj, hi, hreason, hfirst, hdenied⟩ :=
    screen_append_of_denied o "eval(" "class" ")" .classDeclaration h hfront hafter hlength
  have hreason' : denyRules[j].reason = .dynamicCode :=
    RuleError.denied.inj (Except.error.inj (hdenied.symm.trans rfl))
  have hne : j ≠ i := by
    rintro rfl
    exact absurd (hreason.symm.trans hreason') (by decide)
  exact ⟨h, hfront, hafter, hlength, i, j, by omega, hi, hreason, hfirst, hreason'⟩

end RuleConditions
