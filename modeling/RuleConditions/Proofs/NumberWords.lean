import Mathlib.Computability.Language
import RuleConditions.Proofs.Numerals
import RuleConditions.Proofs.Rendering

/-!
# Words of digits and points

A word of digits and points is one number token.  If it is a numeral it stands for the double nearest
to the number that its digits give by their places (`wordValue`), and otherwise for what is bound to
it as to a name (`tokenize_and_outcome_of_word`).

Three readers have to agree on this.  The tokenizer tests the characters of a word one by one, the
evaluator tests the whole word against a pattern, and what passes is read as a decimal.
`numeralPattern` is the pattern as a regular language, and the count of digits and points decides it
(`isNumeral_iff_mem_numeralPattern`).  Its digits are those of every script, and no decimal is read
with any but those of ASCII; but only these are found in a number token that the tokenizer made, so
what passes the pattern is read (`exists_read?_of_tokenize`).
-/

namespace RuleConditions

open Number (IsNearest digitValue sign? wholeValue fractionValue)
open Text (isDecimalDigit)
open scoped Computability

variable {p : Char → Bool} {c : Char} {word whole fraction : List Char} {name : String}

/-! ### The pattern of numerals -/

/-- The words of a single character of some kind. -/
def oneOf (p : Char → Bool) : Language Char := {word | ∃ c, p c = true ∧ word = [c]}

/-- The words of one character of some kind or more. -/
def someOf (p : Char → Bool) : Language Char := oneOf p * (oneOf p)∗

/-- The word of a single point. -/
def point : Language Char := {['.']}

/-- Digits, then possibly a point and possibly more digits; or a point and then digits. -/
def numeralPattern : Language Char :=
  someOf isDecimalDigit * (1 + point) * (oneOf isDecimalDigit)∗ + point * someOf isDecimalDigit

theorem mem_kstar_oneOf : word ∈ (oneOf p)∗ ↔ ∀ c ∈ word, p c = true := by
  constructor
  · rintro ⟨pieces, rfl, hpieces⟩ c hc
    obtain ⟨piece, hpiece, hc⟩ := List.mem_flatten.mp hc
    obtain ⟨d, hd, rfl⟩ := hpieces piece hpiece
    rwa [List.mem_singleton.mp hc]
  · intro h
    induction word with
    | nil => exact Language.nil_mem_kstar _
    | cons c cs ih =>
      obtain ⟨hc, hcs⟩ := List.forall_mem_cons.mp h
      obtain ⟨pieces, rfl, hpieces⟩ := ih hcs
      exact ⟨[c] :: pieces, rfl, List.forall_mem_cons.mpr ⟨⟨c, hc, rfl⟩, hpieces⟩⟩

theorem mem_someOf : word ∈ someOf p ↔ word ≠ [] ∧ ∀ c ∈ word, p c = true := by
  constructor
  · rintro ⟨_, ⟨c, hc, rfl⟩, cs, hcs, rfl⟩
    exact ⟨List.cons_ne_nil c cs, List.forall_mem_cons.mpr ⟨hc, mem_kstar_oneOf.mp hcs⟩⟩
  · rintro ⟨hne, h⟩
    obtain ⟨c, cs, rfl⟩ := List.exists_cons_of_ne_nil hne
    obtain ⟨hc, hcs⟩ := List.forall_mem_cons.mp h
    exact ⟨[c], ⟨c, hc, rfl⟩, cs, mem_kstar_oneOf.mpr hcs, rfl⟩

theorem mem_point : word ∈ point ↔ word = ['.'] := Iff.rfl

/-- The two alternatives of the pattern. -/
theorem mem_numeralPattern_iff : word ∈ numeralPattern ↔
    (∃ whole fraction, whole ≠ [] ∧ (∀ c ∈ whole, isDecimalDigit c = true) ∧
      (∀ c ∈ fraction, isDecimalDigit c = true) ∧
      (word = whole ++ fraction ∨ word = whole ++ '.' :: fraction)) ∨
    ∃ fraction, fraction ≠ [] ∧ (∀ c ∈ fraction, isDecimalDigit c = true) ∧
      word = '.' :: fraction := by
  simp only [numeralPattern, Language.mem_add, Language.mem_mul, Language.mem_one, mem_point,
    mem_someOf, mem_kstar_oneOf]
  constructor
  · rintro (⟨_, ⟨whole, ⟨hne, hwhole⟩, _, rfl | rfl, rfl⟩, fraction, hfraction, rfl⟩ |
      ⟨_, rfl, fraction, ⟨hne, hfraction⟩, rfl⟩)
    · exact .inl ⟨whole, fraction, hne, hwhole, hfraction, .inl (by simp)⟩
    · exact .inl ⟨whole, fraction, hne, hwhole, hfraction, .inr (by simp)⟩
    · exact .inr ⟨fraction, hne, hfraction, rfl⟩
  · rintro (⟨whole, fraction, hne, hwhole, hfraction, rfl | rfl⟩ |
      ⟨fraction, hne, hfraction, rfl⟩)
    · exact .inl ⟨_, ⟨whole, ⟨hne, hwhole⟩, [], .inl rfl, rfl⟩, fraction, hfraction, by simp⟩
    · exact .inl ⟨_, ⟨whole, ⟨hne, hwhole⟩, ['.'], .inr rfl, rfl⟩, fraction, hfraction, by simp⟩
    · exact .inr ⟨_, rfl, fraction, ⟨hne, hfraction⟩, rfl⟩

theorem isNumeral_eq_true_iff : isNumeral word = true ↔
    (∀ c ∈ word, isDecimalDigit c = true ∨ c = '.') ∧ (∃ c ∈ word, isDecimalDigit c = true) ∧
      word.count '.' ≤ 1 := by
  simp [isNumeral, and_assoc]

/-- There is no point among digits. -/
theorem count_eq_zero_of_digits (h : ∀ c ∈ word, isDecimalDigit c = true) : word.count '.' = 0 := by
  rw [List.count_eq_zero]
  intro hpoint
  exact absurd (h '.' hpoint) (by decide)

/-- Digits, with a point among them or without. -/
theorem isNumeral_append (hne : whole ++ fraction ≠ [])
    (hdigits : ∀ c ∈ whole ++ fraction, isDecimalDigit c = true) {rest : List Char}
    (hrest : rest = fraction ∨ rest = '.' :: fraction) : isNumeral (whole ++ rest) = true := by
  obtain ⟨d, hd⟩ := List.exists_mem_of_ne_nil _ hne
  have hcount := count_eq_zero_of_digits hdigits
  rw [List.count_append] at hcount
  rw [isNumeral_eq_true_iff]
  obtain rfl | rfl := hrest
  · refine ⟨fun c hc => .inl (hdigits c hc), ⟨d, hd, hdigits d hd⟩, ?_⟩
    rw [List.count_append]
    omega
  · refine ⟨fun c hc => ?_, ⟨d, ?_, hdigits d hd⟩, ?_⟩
    · rw [List.mem_append, List.mem_cons, or_left_comm, ← List.mem_append] at hc
      exact hc.symm.imp_left (hdigits c)
    · rw [List.mem_append, List.mem_cons, or_left_comm, ← List.mem_append]
      exact .inr hd
    · rw [List.count_append, List.count_cons_self]
      omega

/-- **The count of digits and points decides the pattern.** -/
theorem isNumeral_iff_mem_numeralPattern (word : List Char) :
    isNumeral word = true ↔ word ∈ numeralPattern := by
  rw [mem_numeralPattern_iff]
  constructor
  · intro h
    obtain ⟨hchars, ⟨d, hd, hdigit⟩, hcount⟩ := isNumeral_eq_true_iff.mp h
    have hall : word.all (fun c => isDecimalDigit c || c == '.') = true := by simpa using hchars
    obtain ⟨whole, rest, rfl, hwhole, hrest⟩ := exists_whole hall hcount
    obtain rfl | ⟨fraction, rfl, hfraction⟩ := hrest
    · rw [List.append_nil] at hd
      exact .inl ⟨whole, [], List.ne_nil_of_mem hd, hwhole, by simp, .inl rfl⟩
    · by_cases hne : whole = []
      · subst hne
        -- the digit stands behind the point
        have hmem : d ∈ fraction := by
          refine (List.mem_cons.mp hd).resolve_left ?_
          rintro rfl
          exact absurd hdigit (by decide)
        exact .inr ⟨fraction, List.ne_nil_of_mem hmem, hfraction, rfl⟩
      · exact .inl ⟨whole, fraction, hne, hwhole, hfraction, .inr rfl⟩
  · rintro (⟨whole, fraction, hne, hwhole, hfraction, hword⟩ | ⟨fraction, hne, hfraction, rfl⟩)
    · have hdigits := List.forall_mem_append.mpr ⟨hwhole, hfraction⟩
      have hne : whole ++ fraction ≠ [] := List.append_ne_nil_of_left_ne_nil hne fraction
      obtain rfl | rfl := hword
      · exact isNumeral_append hne hdigits (.inl rfl)
      · exact isNumeral_append hne hdigits (.inr rfl)
    · exact @isNumeral_append [] fraction hne hfraction ('.' :: fraction) (.inr rfl)

/-! ### Words of digits and points -/

/-- Among digits of ASCII and points, the digits are those of ASCII. -/
theorem isDecimalDigit_eq (h : c.isDigit = true ∨ c = '.') : isDecimalDigit c = c.isDigit := by
  obtain h | rfl := h
  · have halphanum : c.isAlphanum = true := by rw [Char.isAlphanum, h, Bool.or_true]
    exact if_pos (toNat_lt_of_isAlphanum halphanum)
  · rfl

/-- A word of digits and points is a numeral if it has a digit and no more than one point. -/
theorem isNumeral_iff_of_word (hword : ∀ c ∈ word, c.isDigit = true ∨ c = '.') :
    isNumeral word = true ↔ (∃ c ∈ word, c.isDigit = true) ∧ word.count '.' ≤ 1 := by
  have hdigit (c : Char) (hc : c ∈ word) : isDecimalDigit c = c.isDigit :=
    isDecimalDigit_eq (hword c hc)
  rw [isNumeral_eq_true_iff, and_iff_right fun c hc => by rw [hdigit c hc]; exact hword c hc]
  refine and_congr_left' (exists_congr fun c => and_congr_right fun hc => ?_)
  rw [hdigit c hc]

/-- The number that the digits of a word give by their places on both sides of the point. -/
def wordValue (word : List Char) : ℚ :=
  wholeValue (word.takeWhile Char.isDigit) + fractionValue (word.dropWhile Char.isDigit).tail

/-- The decimal of a word with at most one point is the nearest double to its value. -/
theorem isNearest_decimal (hword : ∀ c ∈ word, c.isDigit = true ∨ c = '.')
    (hcount : word.count '.' ≤ 1) : IsNearest (wordValue word) (decimal word) := by
  have hall : word.all (fun c => c.isDigit || c == '.') = true := by simpa using hword
  -- all digits as one whole number, shifted by those behind the point
  have hvalue : wordValue word = wholeValue (word.filter Char.isDigit) *
      10 ^ (-((word.dropWhile Char.isDigit).tail.length : ℤ)) := by
    obtain ⟨whole, rest, rfl, hwhole, hrest⟩ := exists_whole hall hcount
    have hspan : rest.head?.any Char.isDigit = false := by
      obtain rfl | ⟨fraction, rfl, -⟩ := hrest <;> rfl
    obtain ⟨htake, hdrop⟩ := Prod.mk.inj (spanDigits_append hwhole rest hspan)
    have hfilter : rest.filter Char.isDigit = rest.tail := by
      obtain rfl | ⟨fraction, rfl, hfraction⟩ := hrest
      · rfl
      · rw [List.filter_cons_of_neg (by decide), List.filter_eq_self.mpr hfraction, List.tail_cons]
    rw [wordValue, htake, hdrop, List.filter_append, List.filter_eq_self.mpr hwhole, hfilter,
      Number.wholeValue_append, Nat.cast_add, Nat.cast_mul, ← Number.fractionValue_mul rest.tail,
      zpow_neg, zpow_natCast]
    push_cast
    field_simp
  rw [hvalue, ← Number.ofDigits_eq]
  exact Number.isNearest_ofDecimal _ _

/-! ### Number tokens -/

/-- No keyword and no constant is a word of digits and points. -/
theorem fixedName?_eq_none (hname : name.toList.all fun c => c.isDigit || c == '.') :
    fixedName? name = none := by
  have hkeyword : keyword? name = none := by
    unfold keyword?
    split
    · exact absurd hname (by decide)
    · exact absurd hname (by decide)
    · exact absurd hname (by decide)
    · exact absurd hname (by decide)
    · rfl
  have hentries : ∀ entry ∈ constantDirectory.entries,
      (entry.1.toList.all fun c => c.isDigit || c == '.') = false := by
    decide
  have hconstant : constant? name = none := by
    refine List.lookup_eq_none_iff.mpr fun entry hentry => ?_
    rw [bne_iff_ne]
    rintro rfl
    rw [hentries entry hentry] at hname
    cases hname
  rw [fixedName?, hkeyword, hconstant]
  rfl

/-- A word of digits and points is one token. -/
theorem tokenize_word (hne : word ≠ []) (hword : ∀ c ∈ word, c.isDigit = true ∨ c = '.') :
    tokenize (String.ofList word) = .ok [.number (String.ofList word)] := by
  have hdigits : (word.all fun c => c.isDigit || c == '.') = true := by simpa using hword
  have hname := fun c hc => isNameChar_of_isDigit_or_dot (hword c hc)
  have hspelt : (Token.ofWord word).Spelt word [] := .word hne hname rfl
  have hread := ReadAs.token hspelt .nil
  rw [Token.ofWord, if_pos hdigits, List.append_nil] at hread
  rw [tokenize_eq_ok_iff_readAs, String.toList_ofList]
  exact hread

/-- A numeral is worth its decimal, whatever is bound. -/
theorem valueOfToken_of_numeral (bindings : Bindings)
    (hword : ∀ c ∈ word, c.isDigit = true ∨ c = '.') (hdigit : ∃ c ∈ word, c.isDigit = true)
    (hcount : word.count '.' ≤ 1) :
    valueOfToken bindings (.number (String.ofList word)) = .ok (.number (decimal word)) := by
  have hplain : ((String.ofList word).toList.all fun c => c.isDigit || c == '.') = true := by
    simpa using hword
  rw [valueOfToken_number bindings hplain, String.toList_ofList,
    if_pos ((isNumeral_iff_of_word hword).mpr ⟨hdigit, hcount⟩)]

/-- Any other word of digits and points is looked up among the bindings. -/
theorem valueOfToken_of_not_numeral (bindings : Bindings)
    (hword : ∀ c ∈ word, c.isDigit = true ∨ c = '.')
    (hother : ¬((∃ c ∈ word, c.isDigit = true) ∧ word.count '.' ≤ 1)) :
    valueOfToken bindings (.number (String.ofList word)) =
      match bindings.get? (String.ofList word) with
      | some value => .ok value
      | none => .error (.unknownVariable (String.ofList word)) := by
  have hplain : ((String.ofList word).toList.all fun c => c.isDigit || c == '.') = true := by
    simpa using hword
  rw [valueOfToken_number bindings hplain, String.toList_ofList,
    if_neg (mt (isNumeral_iff_of_word hword).mp hother), valueOfName, fixedName?_eq_none hplain]
  rfl

/-- What passes the pattern is read, in every token that the tokenizer made. -/
theorem exists_read?_of_tokenize {text : String} {ts : List Token} (h : tokenize text = .ok ts)
    (hmem : .number name ∈ ts) (hnumeral : isNumeral name.toList = true) :
    ∃ x, Number.read? name.toList = some x := by
  obtain ⟨-, hword⟩ := (readAs_of_tokenize h).hasWord _ hmem
  exact ⟨_, read?_eq_decimal (by simpa using hword) hnumeral⟩

/-- **Words of digits and points are classified alike by the tokenizer and the evaluator.**  Such a
word is one number token.  With a digit and no more than one point it is worth the nearest double,
and otherwise it is looked up; the pattern says the same of all words, and a token that passes it is
always read. -/
theorem tokenize_and_outcome_of_word :
    (∀ word : List Char, word ≠ [] → (∀ c ∈ word, c.isDigit = true ∨ c = '.') →
      tokenize (String.ofList word) = .ok [.number (String.ofList word)] ∧
      ((∃ c ∈ word, c.isDigit = true) ∧ word.count '.' ≤ 1 →
        ∃ x, IsNearest (wordValue word) x ∧ sign? x = some .positive ∧
          ∀ (scope : Scope) (depth : Nat), depth + 1 ≤ scope.depthLimit →
            (evaluate scope [.number (String.ofList word)] depth).outcome = .ok (.number x)) ∧
      (¬((∃ c ∈ word, c.isDigit = true) ∧ word.count '.' ≤ 1) →
        ∀ (scope : Scope) (depth : Nat), depth + 1 ≤ scope.depthLimit →
          (evaluate scope [.number (String.ofList word)] depth).outcome =
            match scope.bindings.get? (String.ofList word) with
            | some value => .ok value
            | none => .error (.unknownVariable (String.ofList word)))) ∧
    (∀ (text : String) (ts : List Token), tokenize text = .ok ts →
      ∀ name, .number name ∈ ts → isNumeral name.toList = true →
        ∃ x, Number.read? name.toList = some x) ∧
    ∀ word, isNumeral word = true ↔ word ∈ numeralPattern := by
  refine ⟨fun word hne hword => ⟨tokenize_word hne hword, ?_, ?_⟩,
    fun text ts h name => exists_read?_of_tokenize h, isNumeral_iff_mem_numeralPattern⟩
  · rintro ⟨hdigit, hcount⟩
    refine ⟨decimal word, isNearest_decimal hword hcount, Number.sign?_ofDecimal _ _,
      fun scope depth hdepth => ?_⟩
    have hvalue := valueOfToken_of_numeral scope.bindings hword hdigit hcount
    exact (outcome_word hdepth (by simp)).trans hvalue
  · intro hother scope depth hdepth
    have hvalue := valueOfToken_of_not_numeral scope.bindings hword hother
    exact (outcome_word hdepth (by simp)).trans hvalue

/-- The word `.5` is worth a half even where it is bound, and `1..2` is unknown where it is not. -/
theorem tokenize_and_outcome_of_word_of_half :
    (tokenize ".5" = .ok [.number ".5"] ∧
      ∃ x, IsNearest (1 / 2) x ∧
        (evaluate ⟨.ofList [(".5", .null)], .legacy, 1⟩ [.number ".5"] 0).outcome =
          .ok (.number x)) ∧
    tokenize "1..2" = .ok [.number "1..2"] ∧
      (evaluate ⟨.empty, .conventional, 1⟩ [.number "1..2"] 0).outcome =
        .error (.unknownVariable "1..2") := by
  obtain ⟨hwords, -, -⟩ := tokenize_and_outcome_of_word
  have hhalfWord : ∀ c ∈ ['.', '5'], c.isDigit = true ∨ c = '.' := by simp
  have hdotsWord : ∀ c ∈ ['1', '.', '.', '2'], c.isDigit = true ∨ c = '.' := by simp
  obtain ⟨hhalf, hnumeral, -⟩ := hwords ['.', '5'] (by decide) hhalfWord
  obtain ⟨hdots, -, hother⟩ := hwords ['1', '.', '.', '2'] (by decide) hdotsWord
  obtain ⟨x, hx, -, hvalue⟩ := hnumeral ((isNumeral_iff_of_word hhalfWord).mp (by decide))
  have hunknown := hother (mt (isNumeral_iff_of_word hdotsWord).mpr (by decide))
  have hwordValue : wordValue ['.', '5'] = 1 / 2 := by
    have hdigit : digitValue '5' = 5 := rfl
    change (wholeValue [] : ℚ) + fractionValue ['5'] = 1 / 2
    norm_num [wholeValue, fractionValue, hdigit]
  rw [hwordValue] at hx
  exact ⟨⟨hhalf, x, hx, hvalue _ 0 (by decide)⟩, hdots, hunknown _ 0 (by decide)⟩

end RuleConditions
