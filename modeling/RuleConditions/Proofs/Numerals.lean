import RuleConditions.Proofs.Doubles.Decimals
import RuleConditions.Proofs.Meaning

/-!
# Numerals

A numeral is a mark of sign if it has one, digits with at most one point and at least one digit, and
possibly an exponent.  `Numeral` holds these pieces; `Numeral.text` writes them down, and
`Numeral.value` is the number that the digits and the exponent give by their places.

`readDecimal?` reads exactly the numerals without a mark (`readDecimal?_unsigned`,
`exists_numeral_of_readDecimal?`), and what it reads stands for the value.  So a numeral is read as the
double nearest to its value (`exists_isNearest_of_text`).
-/

namespace RuleConditions.Number

open Float.Model.UnpackedFloat (Sign)

/-! ### Pieces of numerals -/

/-- The mark of sign in front of a numeral or an exponent. -/
inductive Mark where
  | none | plus | minus
deriving DecidableEq

def Mark.text : Mark → List Char
  | .none => []
  | .plus => ['+']
  | .minus => ['-']

def Mark.isMinus : Mark → Bool
  | .none | .plus => false
  | .minus => true

structure Digits where
  chars : List Char
  isDigit : ∀ c ∈ chars, c.isDigit = true

structure Exponent where
  letter : Char
  mark : Mark
  digits : Digits
  letter_eq : letter = 'e' ∨ letter = 'E'
  nonempty : digits.chars ≠ []

structure Numeral where
  mark : Mark
  whole : Digits
  /-- The digits behind the point, if there is a point. -/
  fraction : Option Digits
  exponent : Option Exponent
  nonempty : whole.chars ++ (fraction.map Digits.chars).getD [] ≠ []

/-! ### Text -/

def fractionText : Option Digits → List Char
  | none => []
  | some ds => '.' :: ds.chars

def exponentText : Option Exponent → List Char
  | none => []
  | some e => e.letter :: (e.mark.text ++ e.digits.chars)

/-- The numeral without its mark. -/
def Numeral.unsigned (n : Numeral) : List Char :=
  n.whole.chars ++ (fractionText n.fraction ++ exponentText n.exponent)

def Numeral.text (n : Numeral) : List Char := n.mark.text ++ n.unsigned

/-- The digits behind the point. -/
def Numeral.places (n : Numeral) : List Char := (n.fraction.map Digits.chars).getD []

/-! ### Value -/

def digitValue (c : Char) : ℕ := c.toNat - '0'.toNat

/-- Digits in front of the point: the last one counts once. -/
def wholeValue : List Char → ℕ
  | [] => 0
  | c :: cs => digitValue c * 10 ^ cs.length + wholeValue cs

/-- Digits behind the point: the first one counts a tenth. -/
def fractionValue : List Char → ℚ
  | [] => 0
  | c :: cs => (digitValue c + fractionValue cs) / 10

def exponentValue : Option Exponent → ℤ
  | none => 0
  | some e => if e.mark.isMinus then -wholeValue e.digits.chars else wholeValue e.digits.chars

def Numeral.magnitude (n : Numeral) : ℚ :=
  (wholeValue n.whole.chars + fractionValue n.places) * 10 ^ exponentValue n.exponent

def Numeral.value (n : Numeral) : ℚ :=
  if n.mark.isMinus then -n.magnitude else n.magnitude

theorem wholeValue_append (cs ds : List Char) :
    wholeValue (cs ++ ds) = wholeValue cs * 10 ^ ds.length + wholeValue ds := by
  induction cs with
  | nil => simp [wholeValue]
  | cons c cs ih =>
    rw [List.cons_append, wholeValue, wholeValue, ih, List.length_append]
    ring

theorem fractionValue_mul (cs : List Char) : fractionValue cs * 10 ^ cs.length = wholeValue cs := by
  induction cs with
  | nil => simp [fractionValue, wholeValue]
  | cons c cs ih =>
    rw [fractionValue, wholeValue, List.length_cons]
    push_cast
    rw [← ih]
    ring

theorem ofDigits_eq (cs : List Char) : ofDigits cs = wholeValue cs := by
  have hfold (n : ℕ) : cs.foldl (fun n c => 10 * n + (c.toNat - '0'.toNat)) n =
      n * 10 ^ cs.length + wholeValue cs := by
    induction cs generalizing n with
    | nil => simp [wholeValue]
    | cons c cs ih =>
      rw [List.foldl_cons, ih, wholeValue, List.length_cons, digitValue]
      ring
  rw [ofDigits, hfold, Nat.zero_mul, Nat.zero_add]

/-- The digits without the point, shifted by those behind it. -/
theorem Numeral.magnitude_eq (n : Numeral) :
    n.magnitude = wholeValue (n.whole.chars ++ n.places) *
      10 ^ (exponentValue n.exponent - n.places.length) := by
  have hpos : (0 : ℚ) < 10 ^ n.places.length := by positivity
  rw [Numeral.magnitude, wholeValue_append, zpow_sub₀ (by norm_num), zpow_natCast]
  push_cast
  rw [← fractionValue_mul n.places]
  field_simp

/-! ### Reading -/

theorem isDigit_ne {c d : Char} (hc : c.isDigit = true) (hd : d.isDigit = false) : c ≠ d := by
  rintro rfl
  rw [hc] at hd
  cases hd

theorem splitSign_text (mark : Mark) {cs : List Char}
    (h : ∀ c ∈ cs.head?, c ≠ '-' ∧ c ≠ '+') : splitSign (mark.text ++ cs) = (mark.isMinus, cs) := by
  cases mark with
  | none => exact splitSign_of_head? h
  | plus => rfl
  | minus => rfl

theorem exists_mark (cs : List Char) :
    ∃ mark : Mark, cs = mark.text ++ (splitSign cs).2 ∧ (splitSign cs).1 = mark.isMinus := by
  unfold splitSign
  split
  · exact ⟨.minus, rfl, rfl⟩
  · exact ⟨.plus, rfl, rfl⟩
  · exact ⟨.none, rfl, rfl⟩

theorem readExponent?_text (e : Exponent) :
    readExponent? (e.mark.text ++ e.digits.chars) = some (exponentValue (some e)) := by
  have hhead : ∀ c ∈ e.digits.chars.head?, c ≠ '-' ∧ c ≠ '+' := by
    intro c hc
    have hdigit := e.digits.isDigit c (List.mem_of_mem_head? hc)
    exact ⟨isDigit_ne hdigit rfl, isDigit_ne hdigit rfl⟩
  have hempty : e.digits.chars.isEmpty = false := by
    rw [List.isEmpty_eq_false_iff]
    exact e.nonempty
  have hall : e.digits.chars.all Char.isDigit = true := List.all_eq_true.mpr e.digits.isDigit
  unfold readExponent?
  rw [splitSign_text e.mark hhead]
  simp only [hempty, hall, ofDigits_eq, exponentValue, Bool.not_true, Bool.or_self,
    Bool.false_eq_true, if_false]

theorem exists_exponent_of_readExponent? {letter : Char} {cs : List Char} {k : ℤ}
    (hletter : letter = 'e' ∨ letter = 'E') (h : readExponent? cs = some k) :
    ∃ e, letter :: cs = exponentText e := by
  obtain ⟨mark, hcs, -⟩ := exists_mark cs
  unfold readExponent? at h
  dsimp only at h
  split at h
  · cases h
  · rename_i hdigits
    rw [Bool.or_eq_true, not_or, List.isEmpty_iff, Bool.not_eq_true', Bool.not_eq_false,
      List.all_eq_true] at hdigits
    refine ⟨some ⟨letter, mark, ⟨_, hdigits.2⟩, hletter, hdigits.1⟩, ?_⟩
    exact congrArg (letter :: ·) hcs

/-- The digits behind a point, if there is a point, and the rest. -/
def splitFraction (rest : List Char) : List Char × List Char :=
  match rest with
  | '.' :: rest => spanDigits rest
  | _ => ([], rest)

/-- The power of ten behind the digits. -/
def readPower? : List Char → Option ℤ
  | [] => some 0
  | 'e' :: rest | 'E' :: rest => readExponent? rest
  | _ => none

/-- A numeral without a mark is read in three steps. -/
theorem readDecimal?_eq (cs : List Char) :
    readDecimal? cs =
      let whole := (spanDigits cs).1
      let fraction := (splitFraction (spanDigits cs).2).1
      if whole.isEmpty && fraction.isEmpty then none
      else (readPower? (splitFraction (spanDigits cs).2).2).map fun e =>
        (ofDigits (whole ++ fraction), e - (fraction.length : ℤ)) := by
  have hread (rest : List Char) (c : ℕ) (places : ℤ) :
      (match rest with
        | [] => some (c, -places)
        | 'e' :: rest | 'E' :: rest => (readExponent? rest).map fun e => (c, e - places)
        | _ => none) = (readPower? rest).map fun e => (c, e - places) := by
    unfold readPower?
    split
    · rw [Option.map_some, zero_sub]
    all_goals rfl
  dsimp only
  rw [← hread]
  rfl

theorem readPower?_text (e : Option Exponent) :
    readPower? (exponentText e) = some (exponentValue e) := by
  cases e with
  | none => rfl
  | some e =>
    unfold exponentText
    dsimp only
    obtain h | h := e.letter_eq <;> rw [h] <;> exact readExponent?_text e

theorem exists_exponent_of_readPower? {cs : List Char} {k : ℤ} (h : readPower? cs = some k) :
    ∃ e, cs = exponentText e := by
  unfold readPower? at h
  split at h
  · exact ⟨none, rfl⟩
  · exact exists_exponent_of_readExponent? (.inl rfl) h
  · exact exists_exponent_of_readExponent? (.inr rfl) h
  · cases h

theorem head?_exponentText (e : Option Exponent) :
    (exponentText e).head?.any Char.isDigit = false := by
  cases e with
  | none => rfl
  | some e =>
    show e.letter.isDigit = false
    obtain h | h := e.letter_eq <;> rw [h] <;> rfl

theorem splitFraction_text (fraction : Option Digits) (exponent : Option Exponent) :
    splitFraction (fractionText fraction ++ exponentText exponent) =
      ((fraction.map Digits.chars).getD [], exponentText exponent) := by
  cases fraction with
  | none =>
    cases exponent with
    | none => rfl
    | some e =>
      unfold exponentText
      dsimp only
      obtain h | h := e.letter_eq <;> rw [h] <;> rfl
  | some ds => exact spanDigits_append ds.isDigit _ (head?_exponentText exponent)

theorem exists_fraction (cs : List Char) : ∃ fraction : Option Digits,
    cs = fractionText fraction ++ (splitFraction cs).2 ∧
      (splitFraction cs).1 = (fraction.map Digits.chars).getD [] := by
  unfold splitFraction
  split
  · rename_i rest
    refine ⟨some ⟨_, List.all_eq_true.mp (List.all_takeWhile (l := rest))⟩, ?_, rfl⟩
    exact congrArg ('.' :: ·) List.takeWhile_append_dropWhile.symm
  · exact ⟨none, rfl, rfl⟩

theorem readDecimal?_unsigned (n : Numeral) :
    readDecimal? n.unsigned = some (wholeValue (n.whole.chars ++ n.places),
      exponentValue n.exponent - n.places.length) := by
  have hhead : (fractionText n.fraction ++ exponentText n.exponent).head?.any Char.isDigit =
      false := by
    cases hfraction : n.fraction with
    | none => exact head?_exponentText n.exponent
    | some ds => rfl
  have hempty : (n.whole.chars.isEmpty && n.places.isEmpty) = false := by
    rw [Bool.eq_false_iff]
    intro h
    rw [Bool.and_eq_true, List.isEmpty_iff, List.isEmpty_iff] at h
    exact n.nonempty (by rw [h.1]; exact h.2)
  rw [readDecimal?_eq, Numeral.unsigned, spanDigits_append n.whole.isDigit _ hhead,
    splitFraction_text, readPower?_text, ← Numeral.places]
  dsimp only
  rw [hempty, ofDigits_eq]
  rfl

theorem exists_numeral_of_readDecimal? {cs : List Char} {r : ℕ × ℤ} (h : readDecimal? cs = some r)
    (mark : Mark) : ∃ n : Numeral, n.text = mark.text ++ cs := by
  rw [readDecimal?_eq] at h
  dsimp only at h
  split at h
  · cases h
  rename_i hempty
  obtain ⟨fraction, hrest, hplaces⟩ := exists_fraction (spanDigits cs).2
  obtain ⟨k, hpower, -⟩ := Option.map_eq_some_iff.mp h
  obtain ⟨exponent, hexponent⟩ := exists_exponent_of_readPower? hpower
  have hwhole : ∀ c ∈ (spanDigits cs).1, c.isDigit = true :=
    List.all_eq_true.mp List.all_takeWhile
  refine ⟨⟨mark, ⟨_, hwhole⟩, fraction, exponent, ?_⟩, ?_⟩
  · rw [← hplaces]
    simpa using hempty
  · have hcs : cs = (spanDigits cs).1 ++ (spanDigits cs).2 :=
      List.takeWhile_append_dropWhile.symm
    rw [Numeral.text, Numeral.unsigned, ← hexponent, ← hrest, ← hcs]

/-! ### Signed texts -/

/-- The sign that a mark stands for. -/
def Mark.sign : Mark → Sign
  | .none | .plus => .positive
  | .minus => .negative

/-- A double with a mark in front. -/
def Mark.applied (mark : Mark) (x : Float) : Float := if mark.isMinus then -x else x

theorem Numeral.head?_unsigned (n : Numeral) :
    ∀ c ∈ n.unsigned.head?, c ≠ '-' ∧ c ≠ '+' := by
  intro c hc
  rw [Numeral.unsigned] at hc
  cases hwhole : n.whole.chars with
  | cons d ds =>
    rw [hwhole] at hc
    obtain rfl : d = c := Option.some.inj hc
    have hdigit := n.whole.isDigit d (by rw [hwhole]; exact List.mem_cons_self ..)
    exact ⟨isDigit_ne hdigit rfl, isDigit_ne hdigit rfl⟩
  | nil =>
    cases hfraction : n.fraction with
    | none => exact absurd (by rw [hwhole, hfraction]; rfl) n.nonempty
    | some ds =>
      rw [hwhole, hfraction] at hc
      obtain rfl : '.' = c := Option.some.inj hc
      decide

theorem read?_eq (cs : List Char) :
    read? cs = ((readDecimal? (splitSign cs).2).map (fun r => ofDecimal r.1 r.2) <|>
      named? (splitSign cs).2).map fun x => if (splitSign cs).1 then -x else x := rfl

theorem read?_mark (mark : Mark) {cs : List Char} (h : ∀ c ∈ cs.head?, c ≠ '-' ∧ c ≠ '+') :
    read? (mark.text ++ cs) =
      ((readDecimal? cs).map (fun r => ofDecimal r.1 r.2) <|> named? cs).map mark.applied := by
  rw [read?_eq, splitSign_text mark h]
  rfl

theorem read?_text (n : Numeral) :
    read? n.text = some (n.mark.applied (ofDecimal (wholeValue (n.whole.chars ++ n.places))
      (exponentValue n.exponent - n.places.length))) := by
  rw [Numeral.text, read?_mark n.mark n.head?_unsigned, readDecimal?_unsigned]
  rfl

/-- **A numeral is read as the nearest double** to its value, with its sign. -/
theorem exists_isNearest_of_text (n : Numeral) :
    ∃ x, read? n.text = some x ∧ IsNearest n.value x ∧ sign? x = some n.mark.sign := by
  have hnearest := isNearest_ofDecimal (wholeValue (n.whole.chars ++ n.places))
    (exponentValue n.exponent - n.places.length)
  have hsign := sign?_ofDecimal (wholeValue (n.whole.chars ++ n.places))
    (exponentValue n.exponent - n.places.length)
  rw [← n.magnitude_eq] at hnearest
  refine ⟨_, read?_text n, ?_⟩
  -- the mark comes last: negating the nearest double gives the nearest one of the opposite
  unfold Mark.applied Numeral.value
  cases n.mark with
  | none => exact ⟨hnearest, hsign⟩
  | plus => exact ⟨hnearest, hsign⟩
  | minus => exact ⟨hnearest.neg, (sign?_neg _).trans (congrArg (Option.map Neg.neg) hsign)⟩

/-- What is read is a numeral or a name, with a mark or without. -/
theorem numeral_or_named_of_read? {cs : List Char} {x : Float} (h : read? cs = some x) :
    (∃ n : Numeral, cs = n.text) ∨
      ∃ (mark : Mark) (word : List Char) (y : Float), cs = mark.text ++ word ∧
        named? word = some y ∧ x = mark.applied y := by
  obtain ⟨mark, hcs, hminus⟩ := exists_mark cs
  rw [read?_eq] at h
  obtain ⟨y, hy, rfl⟩ := Option.map_eq_some_iff.mp h
  cases hread : readDecimal? (splitSign cs).2 with
  | some r =>
    obtain ⟨n, hn⟩ := exists_numeral_of_readDecimal? hread mark
    exact .inl ⟨n, hcs.trans hn.symm⟩
  | none =>
    rw [hread] at hy
    exact .inr ⟨mark, _, y, hcs, hy, by rw [hminus]; rfl⟩

end RuleConditions.Number
