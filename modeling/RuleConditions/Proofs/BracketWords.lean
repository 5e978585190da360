import RuleConditions.Judgement
import RuleConditions.Proofs.Pairing

/-!
# The grammar of paired brackets

`BracketWord` is the grammar of the words of round and square brackets that pair and nest: nothing at
all, or a pair around a word with another word behind it.  The test for pairing passes exactly the
token lists whose brackets are such a word (`bracketsPair_iff`).

The test keeps a stack, and the grammar has none.  `ClosingWord` says what the test has still to see
for any stack: bracket words, and between them the closing brackets of the stack from the top down.
A bracket that is opened turns the first two of these words into one (`ClosingWord.opening`), which
is the step of the proof that the test passes nothing else (`closingWord_of_closesAll`).
-/

namespace RuleConditions

variable {t : Token} {ts : List Token} {b : Bracket} {awaiting : List Bracket}

/-! ### Brackets among other tokens -/

def Token.isBracket : Token → Bool
  | .symbol (.opening _) | .symbol (.closing _) => true
  | _ => false

/-- The brackets of a token list, in order. -/
def brackets (ts : List Token) : List Token := ts.filter Token.isBracket

@[simp]
theorem brackets_nil : brackets [] = [] := rfl

@[simp]
theorem brackets_opening :
    brackets (.symbol (.opening b) :: ts) = .symbol (.opening b) :: brackets ts := rfl

@[simp]
theorem brackets_closing :
    brackets (.symbol (.closing b) :: ts) = .symbol (.closing b) :: brackets ts := rfl

/-- A token that leaves the number of open brackets alone is no bracket. -/
theorem brackets_cons (ht : t.nestingChange = 0) : brackets (t :: ts) = brackets ts := by
  have hbracket : t.isBracket = false := by
    unfold Token.isBracket
    split
    · exact absurd ht (by simp)
    · exact absurd ht (by simp)
    · rfl
  rw [brackets, List.filter_cons_of_neg (by simp [hbracket])]
  rfl

/-- Tokens that are no brackets do not matter to the stack. -/
theorem closesAll_brackets (awaiting : List Bracket) (ts : List Token) :
    closesAll awaiting (brackets ts) = closesAll awaiting ts := by
  induction ts generalizing awaiting with
  | nil => rfl
  | cons t ts ih =>
    obtain ⟨b, rfl⟩ | ⟨b, rfl⟩ | ht := t.bracket_cases
    · rw [brackets_opening, closesAll_opening, closesAll_opening, ih]
    · cases awaiting with
      | nil => rfl
      | cons c awaiting =>
        rw [brackets_closing, closesAll_closing_cons, closesAll_closing_cons, ih]
    · rw [brackets_cons ht, closesAll_cons ht, ih]

/-! ### The grammar -/

/-- The words of brackets that pair and nest. -/
inductive BracketWord : List Token → Prop
  | nil : BracketWord []
  | pair (b : Bracket) {inner rest : List Token} (hinner : BracketWord inner)
      (hrest : BracketWord rest) :
    BracketWord (.symbol (.opening b) :: (inner ++ .symbol (.closing b) :: rest))

/-- The words that close the brackets of a stack, the innermost first. -/
inductive ClosingWord : (awaiting : List Bracket) → List Token → Prop
  | nil {rest : List Token} (hrest : BracketWord rest) : ClosingWord [] rest
  | cons {b : Bracket} {awaiting : List Bracket} {inner rest : List Token}
      (hinner : BracketWord inner) (hrest : ClosingWord awaiting rest) :
    ClosingWord (b :: awaiting) (inner ++ .symbol (.closing b) :: rest)

/-- **A bracket that is opened** is closed before those below it on the stack. -/
theorem ClosingWord.opening (h : ClosingWord (b :: awaiting) ts) :
    ClosingWord awaiting (.symbol (.opening b) :: ts) := by
  cases h with
  | cons hinner hrest =>
    cases hrest with
    | nil hrest => exact .nil (.pair b hinner hrest)
    | @cons c _ _ _ hnext hrest =>
      -- the pair and the word behind it are one word in front of the next closing bracket
      have hword := ClosingWord.cons (b := c) (BracketWord.pair b hinner hnext) hrest
      rwa [List.cons_append, List.append_assoc, List.cons_append] at hword

/-- What empties a stack closes its brackets. -/
theorem closingWord_of_closesAll (h : closesAll awaiting ts) :
    ClosingWord awaiting (brackets ts) := by
  induction ts generalizing awaiting with
  | nil =>
    rw [eq_nil_of_closesAll_nil h]
    exact .nil .nil
  | cons t ts ih =>
    obtain ⟨b, rfl⟩ | ⟨b, rfl⟩ | ht := t.bracket_cases
    · rw [closesAll_opening] at h
      exact (ih h).opening
    · cases awaiting with
      | nil => exact absurd h (by simp)
      | cons c awaiting =>
        rw [closesAll_closing_cons, Bool.and_eq_true, beq_iff_eq] at h
        obtain ⟨rfl, h⟩ := h
        exact .cons .nil (ih h)
    · rw [closesAll_cons ht] at h
      rw [brackets_cons ht]
      exact ih h

theorem BracketWord.bracketsPair (h : BracketWord ts) : bracketsPair ts := by
  induction h with
  | nil => rfl
  | pair b _ _ hinner hrest =>
    rw [RuleConditions.bracketsPair, closesAll_opening, closesAll_append_of_bracketsPair hinner,
      closesAll_closing_cons, beq_self_eq_true, Bool.true_and]
    exact hrest

/-- **Brackets pair** where they are a word of the grammar. -/
theorem bracketsPair_iff (ts : List Token) : bracketsPair ts ↔ BracketWord (brackets ts) := by
  constructor
  · intro h
    have hnil : closesAll [] ts := h
    cases closingWord_of_closesAll hnil with
    | nil hword => exact hword
  · intro h
    have hpair : closesAll [] (brackets ts) := h.bracketsPair
    rwa [closesAll_brackets] at hpair

/-! ### The test -/

theorem checkPairing_eq_ok_iff : checkPairing ts = .ok () ↔ bracketsPair ts := by
  unfold checkPairing
  cases bracketsPair ts <;> simp

/-- **The test for pairing** passes the token lists whose brackets are a word of the grammar and
refuses all others as unbalanced.  Tokens that are no brackets do not matter to it. -/
theorem checkPairing_iff_bracketWord (ts : List Token) :
    (checkPairing ts = .ok () ↔ BracketWord (brackets ts)) ∧
    (checkPairing ts = .error .unbalanced ↔ ¬BracketWord (brackets ts)) ∧
    checkPairing (brackets ts) = checkPairing ts := by
  refine ⟨checkPairing_eq_ok_iff.trans (bracketsPair_iff ts), ?_, ?_⟩
  · rw [← bracketsPair_iff, checkPairing]
    cases bracketsPair ts <;> simp
  · have hpair : bracketsPair (brackets ts) = bracketsPair ts := closesAll_brackets [] ts
    rw [checkPairing, hpair, checkPairing]

end RuleConditions
