import RuleConditions.Judgement
import RuleConditions.Proofs.Neighbours

/-!
# Where patterns occur

A pattern occurs in a text if it fits somewhere (`Pattern.occurs_append`,
`Pattern.exists_append_of_occurs`).  Most patterns start with a word: they fit where the word stands,
with no word character in front of it, if what the pattern asks for behind the word fits there
(`Pattern.occurs_of_letters`).  A pattern that asks for a character other than `c` does not occur in
a text of `c` alone (`Pattern.occurs_eq_false_of_refuses`).  A text that is let through holds none
of the patterns (`Options.occurs_of_screen`).
-/

namespace RuleConditions

open Text (isBlank isWord)

namespace Pattern

variable {p : Pattern} {before : Option Char} {front text rest letters word blanks : List Char}

/-! ### Somewhere in a text -/

theorem occursAfter_of_fits (h : p.fits before text = true) : p.occursAfter before text = true := by
  cases text with
  | nil => exact h
  | cons c text => rw [occursAfter, h, Bool.true_or]

theorem occursAfter_append (h : p.fits (front.getLast?.or before) text = true) :
    p.occursAfter before (front ++ text) = true := by
  induction front generalizing before with
  | nil => exact occursAfter_of_fits h
  | cons c front ih =>
    rw [getLast?_cons_or] at h
    rw [List.cons_append, occursAfter, ih h, Bool.or_true]

theorem exists_append_of_occursAfter (h : p.occursAfter before text = true) :
    ∃ front rest, text = front ++ rest ∧ p.fits (front.getLast?.or before) rest = true := by
  induction text generalizing before with
  | nil => exact ⟨[], [], rfl, h⟩
  | cons c text ih =>
    rw [occursAfter, Bool.or_eq_true] at h
    obtain h | h := h
    · exact ⟨[], c :: text, rfl, h⟩
    · obtain ⟨front, rest, rfl, hfits⟩ := ih h
      refine ⟨c :: front, rest, rfl, ?_⟩
      rwa [getLast?_cons_or]

/-- A pattern that fits at some place occurs. -/
theorem occurs_append (h : p.fits front.getLast? text = true) :
    p.occurs (front ++ text) = true := by
  refine occursAfter_append ?_
  rwa [Option.or_none]

/-- A pattern that occurs fits at some place. -/
theorem exists_append_of_occurs (h : p.occurs text = true) :
    ∃ front rest, text = front ++ rest ∧ p.fits front.getLast? rest = true := by
  obtain ⟨front, rest, htext, hfits⟩ := exists_append_of_occursAfter h
  rw [Option.or_none] at hfits
  exact ⟨front, rest, htext, hfits⟩

/-! ### Nowhere in a text -/

/-- A pattern with a test that no character of the text passes does not fit. -/
theorem fits_eq_false_of_test {test : Char → Bool} (hp : .one test ∈ p)
    (htext : ∀ c ∈ text, test c = false) : p.fits before text = false := by
  induction p generalizing before text with
  | nil => exact absurd hp List.not_mem_nil
  | cons piece p ih =>
    cases piece with
    | boundary =>
      have hp : .one test ∈ p := by simpa using hp
      rw [fits, ih hp htext, Bool.and_false]
    | blanks atLeast =>
      have hp : .one test ∈ p := by simpa using hp
      have hrest : ∀ c ∈ text.dropWhile isBlank, test c = false := fun c hc =>
        htext c ((List.dropWhile_suffix isBlank).mem hc)
      simp only [fits, ih hp hrest, Bool.and_false]
    | one other =>
      cases text with
      | nil => rfl
      | cons c text =>
        obtain ⟨hc, htext⟩ := List.forall_mem_cons.mp htext
        rw [fits]
        obtain heq | hp := List.mem_cons.mp hp
        · rw [← Piece.one.inj heq, hc, Bool.false_and]
        · rw [ih hp htext, Bool.and_false]

/-- Whether some test of the pattern fails for a character. -/
def refuses (p : Pattern) (c : Char) : Bool :=
  p.any fun
    | .one test => !test c
    | .boundary | .blanks _ => false

theorem exists_test_of_refuses {c : Char} (h : p.refuses c = true) :
    ∃ test, .one test ∈ p ∧ test c = false := by
  obtain ⟨piece, hpiece, htest⟩ := List.any_eq_true.mp h
  cases piece with
  | one test => exact ⟨test, hpiece, by simpa using htest⟩
  | boundary => exact absurd htest (by simp)
  | blanks atLeast => exact absurd htest (by simp)

/-- A pattern that refuses a character does not occur in a text of that character alone. -/
theorem occurs_eq_false_of_refuses {c : Char} (h : p.refuses c = true)
    (htext : ∀ d ∈ text, d = c) : p.occurs text = false := by
  obtain ⟨test, hp, htest⟩ := exists_test_of_refuses h
  refine Bool.eq_false_iff.mpr fun hoccurs => ?_
  obtain ⟨front, rest, rfl, hfits⟩ := exists_append_of_occurs hoccurs
  have hrest : ∀ d ∈ rest, test d = false := fun d hd => by
    rw [htext d (List.mem_append_right front hd), htest]
  rw [fits_eq_false_of_test hp hrest] at hfits
  exact absurd hfits (by decide)

/-! ### Words in a pattern -/

/-- Letters fit a word that is equal to them up to a change that the test does not see. -/
theorem fits_letters {test : Char → Char → Bool} {change : Char → Char}
    (htest : ∀ letter c, change c = change letter → test letter c = true)
    (hword : word.map change = letters.map change) :
    fits (letters.map (fun letter => .one (test letter)) ++ p) before (word ++ text) =
      p.fits (word.getLast?.or before) text := by
  induction letters generalizing word before with
  | nil =>
    obtain rfl := List.map_eq_nil_iff.mp hword
    rfl
  | cons letter letters ih =>
    cases word with
    | nil => exact absurd hword (by simp)
    | cons c word =>
      obtain ⟨hc, hword⟩ := List.cons.inj hword
      rw [List.map_cons, List.cons_append, List.cons_append, fits, htest letter c hc, Bool.true_and,
        ih hword, getLast?_cons_or]

/-- A pattern that starts with a word occurs where the word stands and the rest of it fits. -/
theorem occurs_of_letters {test : Char → Char → Bool} {change : Char → Char}
    (htest : ∀ letter c, change c = change letter → test letter c = true)
    (hword : word.map change = letters.map change) (hchars : ∀ c ∈ word, isWord c = true)
    (hne : word ≠ []) (hfront : front.getLast?.any isWord = false)
    (hrest : p.fits word.getLast? rest = true) :
    occurs (.boundary :: letters.map (fun letter => .one (test letter)) ++ p)
      (front ++ word ++ rest) = true := by
  rw [List.append_assoc]
  refine occurs_append ?_
  obtain ⟨c, tail, hc⟩ := List.exists_cons_of_ne_nil hne
  have hhead : (word ++ rest).head?.any isWord = true := by
    rw [hc]
    exact hchars c (by rw [hc]; exact List.mem_cons_self ..)
  have hlast : word.getLast?.or front.getLast? = word.getLast? := by
    rw [hc, List.getLast?_cons, Option.some_or]
  rw [List.cons_append, fits, fits_letters htest hword, hfront, hhead, hlast, hrest]
  rfl

/-! ### The kinds of patterns -/

section Kinds

variable {w : String} {c mark : Char} {atLeast : Nat} {test : Char → Bool}

theorem test_exactly (letter c : Char) (h : id c = id letter) : (c == letter) = true :=
  beq_iff_eq.mpr h

theorem sameLetter_of_toLower (letter c : Char) (h : c.toLower = letter.toLower) :
    sameLetter letter c = true := by
  rw [sameLetter, beq_iff_eq.mpr h]
  rfl

/-- Between a word character and another character there is a boundary. -/
theorem fits_boundary_of_word (hchars : ∀ c ∈ word, isWord c = true) (hne : word ≠ [])
    (hrest : rest.head?.any isWord = false) : fits [.boundary] word.getLast? rest = true := by
  have hword : word.getLast?.any isWord = true := by
    rw [List.getLast?_eq_some_getLast hne]
    exact hchars _ (List.getLast_mem hne)
  rw [fits, hword, hrest]
  rfl

/-- Blanks in front of a character that is none are all taken. -/
theorem fits_blanks (hblanks : ∀ c ∈ blanks, isBlank c = true) (hlength : atLeast ≤ blanks.length)
    (hc : isBlank c = false) (htest : test c = true) (rest : List Char) :
    fits [.blanks atLeast, .one test] before (blanks ++ c :: rest) = true := by
  have htake : (blanks ++ c :: rest).takeWhile isBlank = blanks := by
    rw [List.takeWhile_append_of_pos hblanks, List.takeWhile_cons_of_neg (by simp [hc]),
      List.append_nil]
  have hdrop : (blanks ++ c :: rest).dropWhile isBlank = c :: rest := by
    rw [List.dropWhile_append_of_pos hblanks, List.dropWhile_cons_of_neg (by simp [hc])]
  simp [fits, htake, hdrop, hlength, htest]

theorem occurs_word (hchars : ∀ c ∈ w.toList, isWord c = true) (hne : w.toList ≠ [])
    (hfront : front.getLast?.any isWord = false) (hrest : rest.head?.any isWord = false) :
    (Pattern.word w).occurs (front ++ w.toList ++ rest) = true :=
  occurs_of_letters test_exactly rfl hchars hne hfront (fits_boundary_of_word hchars hne hrest)

theorem occurs_wordAnyCase (hword : word.map Char.toLower = w.toList.map Char.toLower)
    (hchars : ∀ c ∈ word, isWord c = true) (hne : word ≠ [])
    (hfront : front.getLast?.any isWord = false) (hrest : rest.head?.any isWord = false) :
    (wordAnyCase w).occurs (front ++ word ++ rest) = true :=
  occurs_of_letters sameLetter_of_toLower hword hchars hne hfront
    (fits_boundary_of_word hchars hne hrest)

/-- A word, blanks and a character that passes a test. -/
theorem occurs_word_blanks (hchars : ∀ c ∈ w.toList, isWord c = true) (hne : w.toList ≠ [])
    (hfront : front.getLast?.any isWord = false) (hblanks : ∀ c ∈ blanks, isBlank c = true)
    (hlength : atLeast ≤ blanks.length) (hc : isBlank c = false) (htest : test c = true)
    (rest : List Char) :
    occurs (.boundary :: exactly w ++ [.blanks atLeast, .one test])
      (front ++ w.toList ++ (blanks ++ c :: rest)) = true :=
  occurs_of_letters test_exactly rfl hchars hne hfront (fits_blanks hblanks hlength hc htest rest)

theorem occurs_wordThen (hchars : ∀ c ∈ w.toList, isWord c = true) (hne : w.toList ≠ [])
    (hfront : front.getLast?.any isWord = false) (hblanks : ∀ c ∈ blanks, isBlank c = true)
    (hmark : isBlank mark = false) (rest : List Char) :
    (wordThen w mark).occurs (front ++ w.toList ++ (blanks ++ mark :: rest)) = true :=
  occurs_word_blanks hchars hne hfront hblanks (Nat.zero_le _) hmark (by simp) rest

theorem occurs_exactly (w : String) (front rest : List Char) :
    (exactly w).occurs (front ++ w.toList ++ rest) = true := by
  rw [List.append_assoc]
  refine occurs_append ?_
  have hfits : fits (exactly w ++ []) front.getLast? (w.toList ++ rest) = true :=
    fits_letters test_exactly rfl
  rwa [List.append_nil] at hfits

end Kinds

end Pattern

/-- **No pattern of a rule occurs in a text that is let through.** -/
theorem Options.occurs_of_screen {o : Options} {text : String} (h : o.screen text = .ok ())
    {p : Pattern} (hp : p ∈ denyRules.map (·.pattern)) : p.occurs text.toList = false := by
  obtain ⟨rule, hrule, rfl⟩ := List.mem_map.mp hp
  unfold screen at h
  split at h
  · exact absurd h (by simp)
  · split at h
    · exact absurd h (by simp)
    · rename_i hnone
      rw [denied?, Option.map_eq_none_iff, List.find?_eq_none] at hnone
      exact Bool.not_eq_true _ ▸ hnone rule hrule

/-- A text in which the pattern of a rule occurs is not one that is let through. -/
theorem Options.toList_ne_of_occurs {o : Options} {text : String} (h : o.screen text = .ok ())
    {p : Pattern} (hp : p ∈ denyRules.map (·.pattern)) {cs : List Char}
    (hoccurs : p.occurs cs = true) : text.toList ≠ cs := by
  rintro rfl
  rw [occurs_of_screen h hp] at hoccurs
  exact absurd hoccurs (by decide)

end RuleConditions
