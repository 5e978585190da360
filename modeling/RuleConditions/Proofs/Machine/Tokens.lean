import RuleConditions.Proofs.Machine.Basic
import RuleConditions.Proofs.Pairing
import RuleConditions.Proofs.Readings

/-!
# Tokens on the machine

A text is read with a position that moves on, and the characters of a word are kept until something
else stands at the position.  No position passes the end of the text.  Each round moves the position
on, so the loops end in no more rounds than there are characters and one for the end; and what is
read are the tokens of the text (`tokenize_eq`).

The pairing of brackets is tested with a stack of the brackets that are awaited, the innermost on
top (`pairs_eq`).
-/

namespace RuleConditions.Machine

open Text (isBlank)

variable {text front rest more word spelling : List Char} {c mark : Char} {rounds : Nat}

/-! ### Strings and symbols -/

/-- Moves on in a text by a number of characters, which may lead to its end and not beyond. -/
def advance (text : List Char) (position count : Nat) : Machine Nat :=
  if position + count ≤ text.length then pure (position + count)
  else throw (.outside (position + count) text.length)

/-- Whether some characters stand at a position. -/
def standsAt (text : List Char) : (position : Nat) → List Char → Bool
  | _, [] => true
  | position, c :: cs => text[position]? == some c && standsAt text (position + 1) cs

/-- Reads a string up to its quote mark, in no more than a number of rounds, and gives its contents
and the position behind it. -/
def closeAt (text : List Char) (mark : Char) :
    (rounds position : Nat) → (contents : List Char) → Machine (Option (List Char × Nat))
  | 0, _, _ => unfinished
  | rounds + 1, position, contents =>
    if position < text.length then do
      let c ← lookUp text position
      let behind ← advance text position 1
      if c = mark then return some (contents, behind)
      else if c = '\\' then
        if behind < text.length then
          let d ← lookUp text behind
          closeAt text mark rounds (← advance text behind 1) (contents ++ [d])
        else return none
      else closeAt text mark rounds behind (contents ++ [c])
    else return none

theorem advance_eq {position count : Nat} (h : position + count ≤ text.length) :
    advance text position count = pure (position + count) :=
  if_pos h

/-- What stands behind some characters. -/
theorem getElem?_of_append (htext : front ++ rest = text) : text[front.length]? = rest.head? := by
  rw [← htext, List.getElem?_append_right (Nat.le_refl _), Nat.sub_self, List.head?_eq_getElem?]

theorem length_lt_of_append (htext : front ++ c :: rest = text) : front.length < text.length := by
  rw [← htext, List.length_append, List.length_cons]
  omega

/-- What is left tells how much stands in front of it. -/
theorem length_sub_of_append (htext : front ++ rest = text) :
    text.length - rest.length = front.length := by
  rw [← htext, List.length_append, Nat.add_sub_cancel]

theorem lookUp_of_append (htext : front ++ c :: rest = text) :
    lookUp text front.length = pure c := by
  rw [← htext, lookUp_append]

theorem advance_one_eq (htext : front ++ c :: rest = text) :
    advance text front.length 1 = pure (front ++ [c]).length := by
  rw [List.length_append, List.length_singleton]
  exact advance_eq (length_lt_of_append htext)

theorem standsAt_eq (htext : front ++ rest = text) (cs : List Char) :
    standsAt text front.length cs = cs.isPrefixOf rest := by
  induction cs generalizing front rest with
  | nil => rw [standsAt, List.isPrefixOf_nil_left]
  | cons c cs ih =>
    rw [standsAt, getElem?_of_append htext]
    cases rest with
    | nil => rfl
    | cons d rest =>
      have hnext := @ih (front ++ [d]) rest (by rwa [List.append_assoc])
      rw [List.length_append, List.length_singleton] at hnext
      rw [hnext, List.head?_cons, List.isPrefixOf_cons_cons, Option.some_beq_some, BEq.comm]

/-- At the end of the text the string has no end. -/
theorem closeAt_nil (contents : List Char) :
    closeAt text mark (rounds + 1) text.length contents = pure none := by
  rw [closeAt, if_neg (Nat.lt_irrefl _)]

theorem closeAt_cons (htext : front ++ c :: rest = text) (contents : List Char) :
    closeAt text mark (rounds + 1) front.length contents =
      if c = mark then pure (some (contents, (front ++ [c]).length))
      else if c = '\\' then
        match rest.head? with
        | none => pure none
        | some d => closeAt text mark rounds (front ++ [c, d]).length (contents ++ [d])
      else closeAt text mark rounds (front ++ [c]).length (contents ++ [c]) := by
  have hbehind : front ++ [c] ++ rest = text := by rwa [List.append_assoc]
  rw [closeAt, if_pos (length_lt_of_append htext), lookUp_of_append htext, pure_bind,
    advance_one_eq htext, pure_bind]
  cases rest with
  | nil =>
    have hend : ¬(front ++ [c]).length < text.length := by
      rw [← hbehind, List.append_nil]
      exact Nat.lt_irrefl _
    rw [if_neg hend]
    rfl
  | cons d rest =>
    rw [if_pos (length_lt_of_append hbehind), lookUp_of_append hbehind, pure_bind,
      advance_one_eq hbehind, pure_bind, List.append_assoc]
    rfl

/-- The string ends where the text says so. -/
theorem closeAt_eq (htext : front ++ rest = text) (hrounds : rest.length < rounds)
    (contents : List Char) :
    closeAt text mark rounds front.length contents =
      pure ((closeString? mark rest).map fun (more, tail) =>
        (contents ++ more, text.length - tail.length)) := by
  induction rounds generalizing front rest contents with
  | zero => exact absurd hrounds (Nat.not_lt_zero _)
  | succ rounds ih =>
    fun_cases closeString? mark rest with
    | case1 =>
      rw [List.append_nil] at htext
      rw [htext, closeAt_nil]
      rfl
    | case2 => simp [closeAt_cons htext, htext]
    | case3 c hmark =>
      have hrest := @ih (front ++ [c]) [] (by simpa using htext) (Nat.lt_of_succ_lt_succ hrounds)
        (contents ++ [c])
      rw [closeAt_cons htext, if_neg hmark, hrest]
      split <;> rfl
    | case4 d cs =>
      have hbehind : front ++ [mark] ++ d :: cs = text := by rwa [List.append_assoc]
      rw [closeAt_cons htext, if_pos rfl, ← length_sub_of_append hbehind]
      simp
    | case5 d cs hmark =>
      rw [closeAt_cons htext, if_neg hmark, if_pos rfl]
      refine (ih (by simpa using htext) (by simp at hrounds; omega) (contents ++ [d])).trans ?_
      cases closeString? mark cs <;> simp
    | case6 c d cs hmark hescape =>
      rw [closeAt_cons htext, if_neg hmark, if_neg hescape]
      refine (ih (by simpa using htext) (Nat.lt_of_succ_lt_succ hrounds) (contents ++ [c])).trans ?_
      cases closeString? mark (d :: cs) <;> simp

/-! ### All tokens -/

/-- How far a text is read. -/
structure Reader where
  position : Nat
  tokens : List Token
  /-- The characters of the word that stands in front of the position. -/
  word : List Char

/-- The token of a word, if there is a word. -/
def wordTokens (word : List Char) : List Token := if word.isEmpty then [] else [.ofWord word]

/-- The tokens read so far, with the word that ends here. -/
def Reader.flush (r : Reader) : List Token := r.tokens ++ wordTokens r.word

/-- Reads what starts at the position with the character `c`. -/
def Reader.next (text : List Char) (rounds : Nat) (r : Reader) (c : Char) :
    ExceptT RuleError Machine Reader := do
  if isBlank c then return ⟨← advance text r.position 1, r.flush, []⟩
  else
    match Symbol.all.find? fun s => standsAt text r.position s.text.toList with
    | some s => return ⟨← advance text r.position s.text.length, r.flush ++ [.symbol s], []⟩
    | none =>
      if isQuote c then
        match ← closeAt text c rounds (← advance text r.position 1) [] with
        | some (contents, behind) =>
          return ⟨behind, r.flush ++ [.str (String.ofList contents)], []⟩
        | none => throw (.unterminatedString r.position)
      else if isNameChar c then return ⟨← advance text r.position 1, r.tokens, r.word ++ [c]⟩
      else throw (.invalidCharacter c r.position)

/-- Reads on to the end of the text, in no more than a number of rounds. -/
def Reader.finish (text : List Char) :
    (rounds : Nat) → Reader → ExceptT RuleError Machine (List Token)
  | 0, _ => ExceptT.lift unfinished
  | rounds + 1, r =>
    if r.position < text.length then do
      let c ← (lookUp text r.position : Machine Char)
      Reader.finish text rounds (← r.next text rounds c)
    else return r.flush

/-- The tokens of a text, or the first place where none can be read. -/
def tokenize (rounds : Nat) (text : String) : Machine (Except RuleError (List Token)) :=
  (Reader.finish text.toList rounds ⟨0, [], []⟩).run

/-! ### One step -/

variable {r : Reader}

/-- The symbol that stands at a position. -/
theorem find?_standsAt (htext : front ++ rest = text) :
    (Symbol.all.find? fun s => standsAt text front.length s.text.toList) =
      Symbol.longest? rest := by
  simp only [standsAt_eq htext]
  rfl

/-- A character of names makes the word longer. -/
theorem Reader.next_of_isNameChar (htext : front ++ c :: rest = text)
    (hposition : r.position = front.length) (hname : isNameChar c = true) :
    r.next text rounds c = pure ⟨(front ++ [c]).length, r.tokens, r.word ++ [c]⟩ := by
  rw [next, hposition, find?_standsAt htext, advance_one_eq htext]
  simp [isBlank_eq_false_of_isNameChar hname, Symbol.longest?_eq_none_of_isNameChar hname,
    isQuote_eq_false_of_isNameChar hname, hname]

/-- In front of a symbol the machine moves on by its length. -/
theorem advance_symbol_eq {s : Symbol} (htext : front ++ rest = text)
    (hs : s.text.toList <+: rest) :
    advance text front.length s.text.length =
      pure (text.length - (rest.drop s.text.length).length) := by
  obtain ⟨tail, rfl⟩ := hs
  have hparts : front ++ s.text.toList ++ tail = text := by rwa [List.append_assoc]
  have hle : front.length + s.text.length ≤ text.length := by
    rw [← hparts, List.length_append, List.length_append, String.length_toList]
    exact Nat.le_add_right _ _
  rw [advance_eq hle, ← String.length_toList, List.drop_left, length_sub_of_append hparts,
    List.length_append]

/-- Everywhere else the word ends.  The machine goes on behind the lexeme that stands there, if
there is one. -/
theorem Reader.next_eq (htext : front ++ c :: rest = text) (hposition : r.position = front.length)
    (hname : isNameChar c = false) (hrounds : rest.length < rounds) :
    r.next text rounds c =
      match Lexeme.next c rest with
      | .error fault => throw (fault.at front.length)
      | .ok (lexeme, more) => pure ⟨text.length - more.length, r.flush ++ lexeme.tokens, []⟩ := by
  have hparts : front ++ [c] ++ rest = text := by rwa [List.append_assoc]
  have hbehind := (length_sub_of_append hparts).symm
  rw [next, hposition, find?_standsAt htext, advance_one_eq htext, Lexeme.next]
  cases isBlank c with
  | true => simp [hbehind, Lexeme.tokens]
  | false =>
    cases hsymbol : Symbol.longest? (c :: rest) with
    | some s =>
      have hs := (Symbol.of_longest? hsymbol).1
      simp [advance_symbol_eq htext hs, Lexeme.tokens]
    | none =>
      cases isQuote c with
      | true =>
        change (liftM (closeAt text c rounds (front ++ [c]).length []) >>= _ :
          ExceptT RuleError Machine Reader) = _
        rw [closeAt_eq hparts hrounds]
        cases closeString? c rest <;> rfl
      | false => simp [hname, LexicalFault.at]

/-! ### Words that are being read -/

/-- A word that ends here is the first token. -/
theorem tokensFrom_word (hword : ∀ c ∈ word, isNameChar c = true)
    (hrest : rest.head?.any isNameChar = false) (position : Nat) :
    tokensFrom position (word ++ rest) =
      (tokensFrom (position + word.length) rest).map (wordTokens word ++ ·) := by
  cases word with
  | nil =>
    rw [List.nil_append, List.length_nil, Nat.add_zero]
    cases tokensFrom position rest <;> rfl
  | cons c cs =>
    have hspelt := Token.Spelt.word (List.cons_ne_nil c cs) hword hrest
    have hnext : Lexeme.next c (cs ++ rest) = .ok (.token (.ofWord (c :: cs)), rest) :=
      hspelt.next rfl
    have hlength : (c :: (cs ++ rest)).length - rest.length = (c :: cs).length := by
      rw [← List.cons_append, List.length_append, Nat.add_sub_cancel]
    rw [List.cons_append, tokensFrom_of_next hnext, hlength]
    rfl

/-- A word that ends in front of a lexeme, and the lexeme, are the first tokens. -/
theorem tokensFrom_word_next {lexeme : Lexeme} (hword : ∀ c ∈ word, isNameChar c = true)
    (hname : isNameChar c = false) (hnext : Lexeme.next c rest = .ok (lexeme, more))
    (hspelling : spelling ++ more = c :: rest) (position : Nat) :
    tokensFrom position (word ++ c :: rest) =
      (tokensFrom (position + (word ++ spelling).length) more).map
        (wordTokens word ++ lexeme.tokens ++ ·) := by
  have hstop : (c :: rest).head?.any isNameChar = false := hname
  rw [tokensFrom_word hword hstop, tokensFrom_of_next hnext, length_sub_of_append hspelling,
    Nat.add_assoc, ← List.length_append]
  cases tokensFrom (position + (word ++ spelling).length) more with
  | error e => rfl
  | ok ts => simp [Except.map]

theorem tokensFrom_word_fault {fault : LexicalFault} (hword : ∀ c ∈ word, isNameChar c = true)
    (hname : isNameChar c = false) (hnext : Lexeme.next c rest = .error fault) (position : Nat) :
    tokensFrom position (word ++ c :: rest) = .error (fault.at (position + word.length)) := by
  have hstop : (c :: rest).head?.any isNameChar = false := hname
  rw [tokensFrom_word hword hstop, tokensFrom_of_fault hnext]
  rfl

theorem Reader.finish_of_append (htext : front ++ c :: rest = text)
    (hposition : r.position = front.length) :
    Reader.finish text (rounds + 1) r = r.next text rounds c >>= Reader.finish text rounds := by
  rw [finish, hposition, if_pos (length_lt_of_append htext), lookUp_of_append htext]
  rfl

/-- **The machine reads the tokens** of what is left, and of the word in front of it. -/
theorem Reader.run_finish_eq (htext : front ++ r.word ++ rest = text)
    (hposition : r.position = (front ++ r.word).length) (hword : ∀ c ∈ r.word, isNameChar c = true)
    (hrounds : rest.length < rounds) :
    (Reader.finish text rounds r).run =
      pure ((tokensFrom front.length (r.word ++ rest)).map (r.tokens ++ ·)) := by
  induction rounds generalizing front rest r with
  | zero => exact absurd hrounds (Nat.not_lt_zero _)
  | succ rounds ih =>
    cases rest with
    | nil =>
      rw [List.append_nil] at htext
      rw [finish, hposition, htext, if_neg (Nat.lt_irrefl _), tokensFrom_word hword rfl,
        tokensFrom_nil]
      simp [Except.map, flush]
    | cons c cs =>
      have hfewer : cs.length < rounds := Nat.lt_of_succ_lt_succ hrounds
      rw [finish_of_append htext hposition]
      cases hname : isNameChar c with
      | true =>
        -- the word goes on
        have hlonger : ∀ d ∈ r.word ++ [c], isNameChar d = true := by
          simpa [or_imp, forall_and] using ⟨hword, hname⟩
        have hnext := @ih front cs ⟨(front ++ r.word ++ [c]).length, r.tokens, r.word ++ [c]⟩
          (by simpa using htext) (by simp) hlonger hfewer
        rw [List.append_assoc r.word, List.singleton_append] at hnext
        rw [next_of_isNameChar htext hposition hname, pure_bind]
        exact hnext
      | false =>
        -- the word ends in front of a lexeme, if there is one
        rw [next_eq htext hposition hname hfewer]
        cases hlexeme : Lexeme.next c cs with
        | error fault =>
          rw [tokensFrom_word_fault hword hname hlexeme, List.length_append]
          rfl
        | ok read =>
          obtain ⟨lexeme, more⟩ := read
          obtain ⟨spelling, hspelling, -⟩ := Lexeme.next_eq_ok_iff.mp hlexeme
          have hparts : front ++ (r.word ++ spelling) ++ [] ++ more = text := by
            rw [List.append_nil, ← List.append_assoc, List.append_assoc, ← hspelling, htext]
          have hshorter := Lexeme.length_next_lt hlexeme
          have hmore := @ih _ more ⟨text.length - more.length, r.flush ++ lexeme.tokens, []⟩ hparts
            (length_sub_of_append hparts) (by simp) (Nat.lt_of_lt_of_le hshorter hfewer)
          rw [List.length_append, List.nil_append] at hmore
          rw [tokensFrom_word_next hword hname hlexeme hspelling.symm]
          refine hmore.trans ?_
          cases tokensFrom (front.length + (r.word ++ spelling).length) more with
          | error e => rfl
          | ok ts => simp [Except.map, flush]

/-- **A text is read** without a fault, in one round more than it has characters or earlier. -/
theorem tokenize_eq {text : String} (hrounds : text.length < rounds) :
    tokenize rounds text = pure (RuleConditions.tokenize text) := by
  have hread : tokenize rounds text = pure ((RuleConditions.tokenize text).map ([] ++ ·)) :=
    @Reader.run_finish_eq text.toList [] text.toList rounds ⟨0, [], []⟩ rfl rfl (by simp)
      (by rwa [String.length_toList])
  rw [hread]
  cases RuleConditions.tokenize text <;> rfl

/-! ### Pairing of brackets -/

/-- Whether the tokens close the brackets on the stack and open and close further ones properly.
The bracket that was opened last is the last of the stack. -/
def pairs : (stack : List Bracket) → List Token → Machine Bool
  | stack, [] => return stack.isEmpty
  | stack, .symbol (.opening b) :: ts => pairs (stack ++ [b]) ts
  | stack, .symbol (.closing b) :: ts =>
    if stack.getLast? = some b then pairs stack.dropLast ts else return false
  | stack, _ :: ts => pairs stack ts

theorem pairs_eq (stack : List Bracket) (ts : List Token) :
    pairs stack ts = pure (closesAll stack.reverse ts) := by
  induction ts generalizing stack with
  | nil =>
    rw [pairs, closesAll, List.isEmpty_reverse]
  | cons t ts ih =>
    rcases t with _ | _ | _ | (_ | _ | b | b | _)
    case symbol.opening =>
      rw [pairs, ih, List.reverse_append, closesAll]
      rfl
    case symbol.closing =>
      rw [pairs]
      obtain rfl | ⟨front, a, rfl⟩ := List.eq_nil_or_concat stack
      · rfl
      · rw [List.concat_eq_append, List.getLast?_concat, List.dropLast_concat, List.reverse_append,
          List.reverse_singleton, List.singleton_append, closesAll, ih]
        by_cases hkind : a = b
        · rw [if_pos (congrArg some hkind), beq_iff_eq.mpr hkind, Bool.true_and]
        · rw [if_neg (mt Option.some.inj hkind), beq_eq_false_iff_ne.mpr hkind, Bool.false_and]
    all_goals
      rw [pairs, ih]
      · rw [closesAll_cons rfl]
      · simp
      · simp

end RuleConditions.Machine
