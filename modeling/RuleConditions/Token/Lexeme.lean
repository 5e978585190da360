import RuleConditions.Error
import RuleConditions.Text.Blank

/-!
# Reading a text as tokens

A text is cut from left to right into lexemes: blanks, symbols, strings and words.  A symbol is the
longest that fits, a word is as long as possible, and a string ends at the next quote mark of its own
kind that no backslash takes away.  `Lexeme.next` reads one lexeme and leaves a shorter text
(`Lexeme.length_next_lt`); `tokenize` reads all of them.
-/

namespace RuleConditions

open Text (isBlank)

/-! ### Words and strings -/

/-- Whether a character can be part of a word. -/
def isNameChar (c : Char) : Bool := c.isAlphanum || c == '_' || c == '.'

/-- A word of digits and dots is a number; every other word is an identifier. -/
def Token.ofWord (word : List Char) : Token :=
  if word.all fun c => c.isDigit || c == '.' then .number (String.ofList word)
  else .ident (String.ofList word)

/-- Whether a character opens a string. -/
def isQuote (c : Char) : Bool := c == '\'' || c == '"'

/-- Reads up to the quote mark and gives the contents and what follows it.  A backslash stands for
nothing, and the character after it stands for itself. -/
def closeString? (mark : Char) : List Char → Option (List Char × List Char)
  | [] => none
  | [c] => if c = mark then some ([], []) else none
  | c :: d :: cs =>
    if c = mark then some ([], d :: cs)
    else if c = '\\' then (closeString? mark cs).map fun (contents, rest) => (d :: contents, rest)
    else (closeString? mark (d :: cs)).map fun (contents, rest) => (c :: contents, rest)

/-- The longest symbol that a text starts with. -/
def Symbol.longest? (cs : List Char) : Option Symbol :=
  all.find? fun s => s.text.toList.isPrefixOf cs

/-! ### One lexeme -/

inductive Lexeme where
  | blank
  | token (t : Token)
deriving DecidableEq, Repr

/-- Why no lexeme starts with a character. -/
inductive LexicalFault where
  | unreadable (c : Char)
  | unclosed
deriving DecidableEq, Repr

/-- The error for a fault at a position, counted in characters from the start of the text. -/
def LexicalFault.at : LexicalFault → (position : Nat) → RuleError
  | .unreadable c, position => .invalidCharacter c position
  | .unclosed, position => .unterminatedString position

namespace Lexeme

def tokens : Lexeme → List Token
  | .blank => []
  | .token t => [t]

/-- The first lexeme of the text `c :: cs`, and the rest of the text. -/
def next (c : Char) (cs : List Char) : Except LexicalFault (Lexeme × List Char) :=
  if isBlank c then .ok (.blank, cs)
  else
    match Symbol.longest? (c :: cs) with
    | some s => .ok (.token (.symbol s), (c :: cs).drop s.text.length)
    | none =>
      if isQuote c then
        match closeString? c cs with
        | some (contents, rest) => .ok (.token (.str (String.ofList contents)), rest)
        | none => .error .unclosed
      else if isNameChar c then
        .ok (.token (.ofWord (c :: cs.takeWhile isNameChar)), cs.dropWhile isNameChar)
      else .error (.unreadable c)

/-! ### Progress -/

theorem length_closeString?_lt {mark : Char} {cs contents rest : List Char}
    (h : closeString? mark cs = some (contents, rest)) : rest.length < cs.length := by
  fun_induction closeString? mark cs generalizing contents rest with
  | case1 => simp at h
  | case2 => simp_all
  | case3 => simp at h
  | case4 => simp_all
  | case5 d cs _ ih =>
    obtain ⟨⟨_, tail⟩, hr, h⟩ := Option.map_eq_some_iff.1 h
    simp only [Prod.mk.injEq] at h
    have := ih hr
    simp only [List.length_cons, ← h.2]
    omega
  | case6 c d cs _ _ ih =>
    obtain ⟨⟨_, tail⟩, hr, h⟩ := Option.map_eq_some_iff.1 h
    simp only [Prod.mk.injEq] at h
    have := ih hr
    simp only [List.length_cons, ← h.2] at this ⊢
    omega

/-- No symbol is written with nothing. -/
theorem length_symbol_pos (s : Symbol) : 0 < s.text.length := by
  rcases s with ((_ | _) | (_ | _) | (_ | _)) | _ | (_ | _) | (_ | _) | _ <;> decide

/-- A lexeme takes at least one character. -/
theorem length_next_lt {c : Char} {cs rest : List Char} {lexeme : Lexeme}
    (h : next c cs = .ok (lexeme, rest)) : rest.length < (c :: cs).length := by
  unfold next at h
  split at h
  · simp_all
  · split at h
    · rename_i s _
      have := length_symbol_pos s
      simp only [Except.ok.injEq, Prod.mk.injEq] at h
      simp only [← h.2, List.length_drop, List.length_cons]
      omega
    · split at h
      · split at h
        · rename_i hc
          simp only [Except.ok.injEq, Prod.mk.injEq] at h
          have := length_closeString?_lt hc
          simp only [List.length_cons, ← h.2]
          omega
        · simp at h
      · split at h
        · simp only [Except.ok.injEq, Prod.mk.injEq] at h
          have := (List.dropWhile_suffix isNameChar (l := cs)).length_le
          simp only [List.length_cons, ← h.2]
          omega
        · simp at h

end Lexeme

/-! ### All tokens -/

/-- The tokens of a text that starts at a position. -/
def tokensFrom (position : Nat) : List Char → Except RuleError (List Token)
  | [] => .ok []
  | c :: cs =>
    match _h : Lexeme.next c cs with
    | .error fault => .error (fault.at position)
    | .ok (lexeme, rest) =>
      match tokensFrom (position + ((c :: cs).length - rest.length)) rest with
      | .error e => .error e
      | .ok ts => .ok (lexeme.tokens ++ ts)
termination_by cs => cs.length
decreasing_by exact Lexeme.length_next_lt _h

/-- The tokens of a text, or the first place where none can be read. -/
def tokenize (text : String) : Except RuleError (List Token) := tokensFrom 0 text.toList

end RuleConditions
