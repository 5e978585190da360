import RuleConditions.Proofs.Readings

/-!
# Where a text cannot be read

Reading a text from the left ends at its end or at a fault: a character with which no lexeme starts,
or a string that nothing closes.  `Unreadable` and `Unclosed` say what is found at such a place
without reading anything there.  The tokenizer fails with the position of that place and in no other
way, and there is at most one such place (`tokenize_eq_error_iff_and_unique`).

What stands in front of a fault can be read by itself (`ReadTo.readTo_nil`): a symbol stays the
longest, and a word still ends, where the text is cut off behind it.
-/

namespace RuleConditions

open Text (isBlank)
open SpeltLexeme (textAll tokensAll)

variable {c mark : Char} {cs contents more spelling rest text : List Char} {t : Token}
  {lexeme : Lexeme} {pieces : List SpeltLexeme} {position : Nat} {e : RuleError}

/-! ### Faults -/

/-- A string that is not closed has its quote mark nowhere behind what may be written in it. -/
theorem closeString?_eq_none_iff (hmark : isQuote mark = true) :
    closeString? mark cs = none ↔
      ∀ contents written rest, QuotedAs mark contents written → cs ≠ written ++ mark :: rest := by
  constructor
  · rintro hnone contents written rest h rfl
    rw [closeString?_append hmark h] at hnone
    exact absurd hnone (by simp)
  · intro h
    cases hclose : closeString? mark cs with
    | none => rfl
    | some found =>
      obtain ⟨contents, rest⟩ := found
      obtain ⟨written, hcs, hwritten⟩ := quotedAs_of_closeString? hclose
      exact absurd hcs (h contents written rest hwritten)

namespace Lexeme

/-- No lexeme starts with a character that is no blank, no quote mark and none of names, where no
symbol stands. -/
theorem next_eq_unreadable_iff {d : Char} :
    next c cs = .error (.unreadable d) ↔
      d = c ∧ isBlank c = false ∧ isQuote c = false ∧ isNameChar c = false ∧
        ∀ s : Symbol, ¬ s.text.toList <+: c :: cs := by
  rw [← Symbol.longest?_eq_none_iff]
  cases hblank : isBlank c with
  | true => simp [next, hblank]
  | false =>
    cases hsymbol : Symbol.longest? (c :: cs) with
    | some s => simp [next, hblank, hsymbol]
    | none =>
      cases hquote : isQuote c with
      | true => cases hclose : closeString? c cs <;> simp [next, hblank, hsymbol, hquote, hclose]
      | false =>
        cases hname : isNameChar c with
        | true => simp [next, hblank, hsymbol, hquote, hname]
        | false => simp [next, hblank, hsymbol, hquote, hname, eq_comm]

/-- A string that starts with a quote mark and is not closed is no lexeme. -/
theorem next_eq_unclosed_iff :
    next c cs = .error .unclosed ↔ isQuote c = true ∧
      ∀ contents written rest, QuotedAs c contents written → cs ≠ written ++ c :: rest := by
  cases hquote : isQuote c with
  | true =>
    rw [← closeString?_eq_none_iff hquote]
    have hblank := isBlank_eq_false_of_isQuote hquote
    have hsymbol : Symbol.longest? (c :: cs) = none := Symbol.longest?_eq_none_of_isQuote hquote
    cases hclose : closeString? c cs <;> simp [next, hblank, hsymbol, hquote, hclose]
  | false =>
    cases hblank : isBlank c with
    | true => simp [next, hblank]
    | false =>
      cases hsymbol : Symbol.longest? (c :: cs) with
      | some s => simp [next, hblank, hsymbol]
      | none => cases hname : isNameChar c <;> simp [next, hblank, hsymbol, hquote, hname]

end Lexeme

/-- The tokenizer fails where a reading comes to a fault. -/
theorem tokenize_eq_error_iff {text : String} :
    tokenize text = .error e ↔ ∃ pieces c cs fault, ReadTo (c :: cs) text.toList pieces ∧
      Lexeme.next c cs = .error fault ∧ e = fault.at (textAll pieces).length := by
  constructor
  · intro h
    obtain ⟨pieces, rest, hread, hrest⟩ := exists_readTo text.toList
    rw [tokenize, hread.tokensFrom_eq, Nat.zero_add] at h
    cases rest with
    | nil =>
      rw [tokensFrom_nil] at h
      exact absurd h (by simp [Except.map])
    | cons c cs =>
      obtain ⟨fault, hfault⟩ := hrest c cs rfl
      rw [tokensFrom_of_fault hfault] at h
      exact ⟨pieces, c, cs, fault, hread, hfault, (Except.error.inj h).symm⟩
  · rintro ⟨pieces, c, cs, fault, hread, hfault, rfl⟩
    rw [tokenize, hread.tokensFrom_eq, tokensFrom_of_fault hfault, Nat.zero_add]
    rfl

/-! ### What stands in front of a place -/

/-- A token that is spelt in front of a text is also spelt in front of a beginning of that text. -/
theorem Token.Spelt.of_append (h : t.Spelt spelling (more ++ rest)) : t.Spelt spelling more := by
  generalize hall : more ++ rest = all at h
  cases h with
  | @symbol s =>
    subst hall
    rename_i hlongest
    refine .symbol fun other hother => hlongest other ?_
    rw [← List.append_assoc]
    exact hother.trans (List.prefix_append _ _)
  | str hmark h => exact .str hmark h
  | word hne hword hrest =>
    subst hall
    refine .word hne hword ?_
    cases more with
    | nil => rfl
    | cons d more => exact hrest

theorem Lexeme.Spelt.of_append (h : lexeme.Spelt spelling (more ++ rest)) :
    lexeme.Spelt spelling more := by
  cases h with
  | blank hc => exact .blank hc
  | token ht => exact .token ht.of_append

/-- What was read can be read by itself. -/
theorem ReadTo.readTo_nil (h : ReadTo rest text pieces) : ReadTo [] (textAll pieces) pieces := by
  induction h with
  | stop => exact .stop
  | piece hp h ih =>
    rw [← h.textAll_append] at hp
    exact .piece hp.of_append ih

/-- At this position of the text, read from the left, a lexeme starts or the text ends. -/
def IsBoundary (text : List Char) (position : Nat) : Prop :=
  position ≤ text.length ∧ ∃ pieces, ReadTo (text.drop position) text pieces

theorem ReadTo.length_textAll (h : ReadTo (text.drop position) text pieces)
    (hposition : position ≤ text.length) : (textAll pieces).length = position := by
  have := congrArg List.length h.textAll_append
  rw [List.length_append, List.length_drop] at this
  omega

theorem ReadTo.isBoundary (h : ReadTo rest text pieces) :
    IsBoundary text (textAll pieces).length := by
  rw [← h.textAll_append]
  refine ⟨by simp, pieces, ?_⟩
  rw [List.drop_left, h.textAll_append]
  exact h

theorem ReadTo.take_textAll (h : ReadTo rest text pieces) :
    text.take (textAll pieces).length = textAll pieces := by
  rw [← h.textAll_append, List.take_left]

theorem ReadTo.exists_tokenize_take (h : ReadTo rest text pieces) :
    ∃ ts, tokenize (String.ofList (text.take (textAll pieces).length)) = .ok ts := by
  refine ⟨tokensAll pieces, tokenize_eq_ok_iff.mpr ⟨pieces, ?_, rfl⟩⟩
  rw [h.take_textAll, String.toList_ofList]
  exact h.readTo_nil

/-! ### Places of faults -/

/-- The text can be read up to this position, and no lexeme starts with the character there. -/
structure Unreadable (text : List Char) (c : Char) (position : Nat) : Prop where
  readable : ∃ ts, tokenize (String.ofList (text.take position)) = .ok ts
  boundary : IsBoundary text position
  char : text[position]? = some c
  notBlank : isBlank c = false
  notQuote : isQuote c = false
  notName : isNameChar c = false
  noSymbol : ∀ s : Symbol, ¬ s.text.toList <+: text.drop position

/-- The text can be read up to this position, and behind the quote mark there the same mark does not
stand behind anything that may be written in a string. -/
structure Unclosed (text : List Char) (position : Nat) : Prop where
  readable : ∃ ts, tokenize (String.ofList (text.take position)) = .ok ts
  boundary : IsBoundary text position
  string : ∃ mark, text[position]? = some mark ∧ isQuote mark = true ∧
    ∀ contents written rest, QuotedAs mark contents written →
      text.drop (position + 1) ≠ written ++ mark :: rest

theorem drop_eq_cons (h : text[position]? = some c) :
    text.drop position = c :: text.drop (position + 1) := by
  obtain ⟨hlt, rfl⟩ := List.getElem?_eq_some_iff.mp h
  exact List.drop_eq_getElem_cons hlt

theorem LexicalFault.at_eq_invalidCharacter {fault : LexicalFault} {n : Nat}
    (h : .invalidCharacter c position = fault.at n) : fault = .unreadable c ∧ position = n := by
  cases fault with
  | unreadable d =>
    obtain ⟨rfl, rfl⟩ := RuleError.invalidCharacter.inj h
    exact ⟨rfl, rfl⟩
  | unclosed => exact absurd h (by simp [LexicalFault.at])

theorem LexicalFault.at_eq_unterminatedString {fault : LexicalFault} {n : Nat}
    (h : .unterminatedString position = fault.at n) : fault = .unclosed ∧ position = n := by
  cases fault with
  | unreadable d => exact absurd h (by simp [LexicalFault.at])
  | unclosed => exact ⟨rfl, RuleError.unterminatedString.inj h⟩

/-- The place of a fault is the end of a reading. -/
theorem tokenize_eq_invalidCharacter_iff {text : String} :
    tokenize text = .error (.invalidCharacter c position) ↔ Unreadable text.toList c position := by
  rw [tokenize_eq_error_iff]
  constructor
  · rintro ⟨pieces, d, cs, fault, hread, hfault, herror⟩
    obtain ⟨rfl, rfl⟩ := LexicalFault.at_eq_invalidCharacter herror
    obtain ⟨rfl, hblank, hquote, hname, hsymbol⟩ := Lexeme.next_eq_unreadable_iff.mp hfault
    have htext := hread.textAll_append
    refine ⟨hread.exists_tokenize_take, hread.isBoundary, ?_, hblank, hquote, hname, ?_⟩
    · rw [← htext, List.getElem?_append_right (Nat.le_refl _), Nat.sub_self]
      rfl
    · rwa [← htext, List.drop_left]
  · intro h
    have hdrop := drop_eq_cons h.char
    obtain ⟨hle, pieces, hread⟩ := h.boundary
    have hsymbol := h.noSymbol
    have hlength := hread.length_textAll hle
    rw [hdrop] at hread hsymbol
    refine ⟨pieces, c, _, .unreadable c, hread, ?_, by rw [hlength]; rfl⟩
    exact Lexeme.next_eq_unreadable_iff.mpr ⟨rfl, h.notBlank, h.notQuote, h.notName, hsymbol⟩

@[inherit_doc tokenize_eq_invalidCharacter_iff]
theorem tokenize_eq_unterminatedString_iff {text : String} :
    tokenize text = .error (.unterminatedString position) ↔ Unclosed text.toList position := by
  rw [tokenize_eq_error_iff]
  constructor
  · rintro ⟨pieces, mark, cs, fault, hread, hfault, herror⟩
    obtain ⟨rfl, rfl⟩ := LexicalFault.at_eq_unterminatedString herror
    obtain ⟨hmark, hopen⟩ := Lexeme.next_eq_unclosed_iff.mp hfault
    have htext := hread.textAll_append
    refine ⟨hread.exists_tokenize_take, hread.isBoundary, mark, ?_, hmark, ?_⟩
    · rw [← htext, List.getElem?_append_right (Nat.le_refl _), Nat.sub_self]
      rfl
    · have hdrop : text.toList.drop ((textAll pieces).length + 1) = cs := by
        rw [← htext, ← List.drop_drop, List.drop_left, List.drop_one, List.tail_cons]
      rwa [hdrop]
  · intro h
    obtain ⟨mark, hchar, hmark, hopen⟩ := h.string
    have hdrop := drop_eq_cons hchar
    obtain ⟨hle, pieces, hread⟩ := h.boundary
    have hlength := hread.length_textAll hle
    rw [hdrop] at hread
    refine ⟨pieces, mark, _, .unclosed, hread, ?_, by rw [hlength]; rfl⟩
    exact Lexeme.next_eq_unclosed_iff.mpr ⟨hmark, hopen⟩

/-- The text cannot be read on at this position. -/
def IsFault (text : List Char) (position : Nat) : Prop :=
  (∃ c, Unreadable text c position) ∨ Unclosed text position

theorem IsFault.exists_error {text : String} (h : IsFault text.toList position) :
    ∃ fault : LexicalFault, tokenize text = .error (fault.at position) := by
  obtain ⟨c, h⟩ | h := h
  · exact ⟨.unreadable c, tokenize_eq_invalidCharacter_iff.mpr h⟩
  · exact ⟨.unclosed, tokenize_eq_unterminatedString_iff.mpr h⟩

theorem LexicalFault.at_inj {fault fault' : LexicalFault} {m n : Nat}
    (h : fault.at m = fault'.at n) : m = n := by
  cases fault with
  | unreadable c => exact (at_eq_invalidCharacter h).2
  | unclosed => exact (at_eq_unterminatedString h).2

/-- **The errors of the tokenizer point at the first place that cannot be read.**  Each error is
given exactly where its fault is found, there are no others, and a text has at most one such
place. -/
theorem tokenize_eq_error_iff_and_unique (text : String) :
    (∀ c p, tokenize text = .error (.invalidCharacter c p) ↔ Unreadable text.toList c p) ∧
    (∀ p, tokenize text = .error (.unterminatedString p) ↔ Unclosed text.toList p) ∧
    (∀ e, tokenize text = .error e →
      (∃ c p, e = .invalidCharacter c p) ∨ ∃ p, e = .unterminatedString p) ∧
    ∀ p q, IsFault text.toList p → IsFault text.toList q → p = q := by
  refine ⟨fun c p => tokenize_eq_invalidCharacter_iff,
    fun p => tokenize_eq_unterminatedString_iff, fun e h => ?_, fun p q hp hq => ?_⟩
  · obtain ⟨pieces, c, cs, fault, -, -, rfl⟩ := tokenize_eq_error_iff.mp h
    cases fault with
    | unreadable d => exact .inl ⟨d, _, rfl⟩
    | unclosed => exact .inr ⟨_, rfl⟩
  · obtain ⟨fault, hfault⟩ := hp.exists_error
    obtain ⟨fault', hfault'⟩ := hq.exists_error
    exact LexicalFault.at_inj (Except.error.inj (hfault.symm.trans hfault'))

/-- A backslash takes the last quote mark away, so the string in front of it stays open. -/
theorem tokenize_eq_error_iff_and_unique_of_escaped :
    tokenize "a=='\\'" = .error (.unterminatedString 3) ∧ Unclosed "a=='\\'".toList 3 ∧
      ∀ q, IsFault "a=='\\'".toList q → q = 3 := by
  have hname : Lexeme.next 'a' "=='\\'".toList = .ok (.token (.ident "a"), "=='\\'".toList) := rfl
  have hequal : Lexeme.next '=' "='\\'".toList =
      .ok (.token (.symbol (.operator (.comparison .equal))), "'\\'".toList) := rfl
  have hopen : Lexeme.next '\'' "\\'".toList = .error .unclosed := rfl
  have herror : tokenize "a=='\\'" = .error (.unterminatedString 3) := by
    change tokensFrom 0 ('a' :: "=='\\'".toList) = _
    rw [tokensFrom_of_next hname]
    change (tokensFrom 1 ('=' :: "='\\'".toList)).map _ = _
    rw [tokensFrom_of_next hequal]
    change ((tokensFrom 3 ('\'' :: "\\'".toList)).map _).map _ = _
    rw [tokensFrom_of_fault hopen]
    rfl
  obtain ⟨-, hunclosed, -, hunique⟩ := tokenize_eq_error_iff_and_unique "a=='\\'"
  have h := (hunclosed 3).mp herror
  exact ⟨herror, h, fun q hq => hunique q 3 hq (.inr h)⟩

end RuleConditions
