import RuleConditions.Proofs.Neighbours
import RuleConditions.Text.Word
import RuleConditions.Token.Lexeme

/-!
# How tokens are spelt

`Token.Spelt t spelling rest` says that the token `t` is spelt so in front of `rest`, and
`ReadAs text ts` that a text is a row of blanks and spellings of the tokens `ts`.  What a text is
tokenized as, it can be read as (`readAs_of_tokenize`).

The word characters of all scripts are more than the characters of names, and less: a dot belongs to
a name but to no word.  Still, in a text that can be read, a name has no word character beside it
(`ReadAs.exists_name`): of the other lexemes none starts with a word character, and none ends with
one.
-/

namespace RuleConditions

open Text (Ranges blankRanges wordRanges isBlank isWord)

variable {c : Char}

/-! ### Kinds of characters -/

theorem Text.Ranges.contains_iff {ranges : Ranges} :
    ranges.contains c = true ↔ ∃ r ∈ ranges, r.1 ≤ c.toNat ∧ c.toNat ≤ r.2 := by
  simp [Ranges.contains]

theorem disjoint_blankRanges_wordRanges :
    ∀ b ∈ blankRanges, ∀ w ∈ wordRanges, b.2 < w.1 ∨ w.2 < b.1 := by
  decide +kernel

theorem isWord_ofNat_eq_false_of_isBlank :
    ∀ n < 0x80, isBlank (Char.ofNat n) = true → isWord (Char.ofNat n) = false := by
  decide +kernel

/-- No blank is a word character. -/
theorem isWord_eq_false_of_isBlank (h : isBlank c = true) : isWord c = false := by
  by_cases hascii : c.toNat < 0x80
  · have hword := isWord_ofNat_eq_false_of_isBlank c.toNat hascii
    rw [Char.ofNat_toNat] at hword
    exact hword h
  · rw [isWord, if_neg hascii, ← Bool.not_eq_true]
    intro hword
    obtain ⟨b, hb, hblank⟩ := Ranges.contains_iff.mp h
    obtain ⟨w, hw, hword⟩ := Ranges.contains_iff.mp hword
    have := disjoint_blankRanges_wordRanges b hb w hw
    omega

theorem toNat_lt_of_isAlphanum (h : c.isAlphanum = true) : c.toNat < 0x80 := by
  -- of the ranges of letters and digits only the upper ends matter
  change (decide (_ ∧ c.val ≤ 'Z'.val) || (decide _ && decide (c.val ≤ 'z'.val)) ||
    (decide _ && decide (c.val ≤ '9'.val))) = true at h
  simp only [Bool.or_eq_true, Bool.and_eq_true, decide_eq_true_eq, UInt32.le_iff_toNat_le] at h
  have hZ : 'Z'.val.toNat = 90 := rfl
  have hz : 'z'.val.toNat = 122 := rfl
  have h9 : '9'.val.toNat = 57 := rfl
  have hc : c.toNat = c.val.toNat := rfl
  omega

/-- A character of names is a word character, unless it is the dot. -/
theorem isWord_of_isNameChar (h : isNameChar c = true) (hdot : c ≠ '.') : isWord c = true := by
  simp only [isNameChar, Bool.or_eq_true, beq_iff_eq, hdot, or_false] at h
  have hascii : c.toNat < 0x80 := by
    obtain h | rfl := h
    · exact toNat_lt_of_isAlphanum h
    · decide
  rw [isWord, if_pos hascii, Bool.or_eq_true, beq_iff_eq]
  exact h

theorem isBlank_eq_false_of_isNameChar (h : isNameChar c = true) : isBlank c = false := by
  rw [← Bool.not_eq_true]
  intro hblank
  have hdot : c ≠ '.' := by
    rintro rfl
    exact absurd hblank (by decide)
  have hword := isWord_of_isNameChar h hdot
  rw [isWord_eq_false_of_isBlank hblank] at hword
  exact absurd hword (by decide)

/-- No symbol holds a word character. -/
theorem isWord_eq_false_of_mem_symbol {s : Symbol} (h : c ∈ s.text.toList) : isWord c = false := by
  have hall : s.text.toList.all (fun d => !isWord d) = true := by
    rcases s with ((_ | _) | (_ | _) | (_ | _)) | _ | (_ | _) | (_ | _) | _ <;> decide
  simpa using List.all_eq_true.mp hall c h

theorem isWord_eq_false_of_isQuote (h : isQuote c = true) : isWord c = false := by
  rw [isQuote, Bool.or_eq_true, beq_iff_eq, beq_iff_eq] at h
  obtain rfl | rfl := h <;> decide

/-! ### Spellings -/

/-- What can be written between two quote marks for these contents. -/
inductive QuotedAs (mark : Char) : (contents written : List Char) → Prop
  | nil : QuotedAs mark [] []
  | escaped {contents written : List Char} (c : Char) (h : QuotedAs mark contents written) :
    QuotedAs mark (c :: contents) ('\\' :: c :: written)
  | plain {c : Char} {contents written : List Char} (hmark : c ≠ mark) (hescape : c ≠ '\\')
      (h : QuotedAs mark contents written) :
    QuotedAs mark (c :: contents) (c :: written)

/-- How a token is spelt in front of the rest of a text.  The rest decides where a symbol or a word
ends. -/
inductive Token.Spelt : Token → (spelling rest : List Char) → Prop
  | symbol {s : Symbol} {rest : List Char} (hlongest : ∀ other : Symbol,
      other.text.toList <+: s.text.toList ++ rest → other.text.length ≤ s.text.length) :
    Spelt (.symbol s) s.text.toList rest
  | str {mark : Char} {contents written rest : List Char} (hmark : isQuote mark = true)
      (h : QuotedAs mark contents written) :
    Spelt (.str (String.ofList contents)) (mark :: (written ++ [mark])) rest
  | word {word rest : List Char} (hne : word ≠ []) (hword : ∀ c ∈ word, isNameChar c = true)
      (hrest : rest.head?.any isNameChar = false) :
    Spelt (.ofWord word) word rest

/-- A text as a row of blanks and spellings. -/
inductive ReadAs : (text : List Char) → List Token → Prop
  | nil : ReadAs [] []
  | blank {c : Char} {rest : List Char} {ts : List Token} (hc : isBlank c = true)
      (h : ReadAs rest ts) : ReadAs (c :: rest) ts
  | token {t : Token} {spelling rest : List Char} {ts : List Token} (ht : t.Spelt spelling rest)
      (h : ReadAs rest ts) : ReadAs (spelling ++ rest) (t :: ts)

variable {mark : Char} {cs contents spelling rest text : List Char} {before : Option Char}
  {t : Token} {ts pre post : List Token} {name : String}

/-! ### Tokenized texts can be read -/

theorem quotedAs_of_closeString? (h : closeString? mark cs = some (contents, rest)) :
    ∃ written, cs = written ++ mark :: rest ∧ QuotedAs mark contents written := by
  fun_induction closeString? mark cs generalizing contents rest with
  | case1 => simp at h
  | case2 =>
    obtain ⟨rfl, rfl⟩ := Prod.mk.inj (Option.some.inj h)
    exact ⟨[], rfl, .nil⟩
  | case3 => simp at h
  | case4 d cs =>
    obtain ⟨rfl, rfl⟩ := Prod.mk.inj (Option.some.inj h)
    exact ⟨[], rfl, .nil⟩
  | case5 d cs _ ih =>
    obtain ⟨⟨tail, rest⟩, hrest, h⟩ := Option.map_eq_some_iff.mp h
    obtain ⟨rfl, rfl⟩ := Prod.mk.inj h
    obtain ⟨written, rfl, hwritten⟩ := ih hrest
    exact ⟨'\\' :: d :: written, rfl, hwritten.escaped d⟩
  | case6 c d cs hmark hescape ih =>
    obtain ⟨⟨tail, rest⟩, hrest, h⟩ := Option.map_eq_some_iff.mp h
    obtain ⟨rfl, rfl⟩ := Prod.mk.inj h
    obtain ⟨written, hcs, hwritten⟩ := ih hrest
    exact ⟨c :: written, by rw [hcs]; rfl, hwritten.plain hmark hescape⟩

theorem Symbol.mem_all (s : Symbol) : s ∈ all := by
  rcases s with ((_ | _) | (_ | _) | (_ | _)) | _ | (_ | _) | (_ | _) | _ <;> decide

theorem Symbol.pairwise_all : all.Pairwise fun s other => other.text.length ≤ s.text.length := by
  decide

/-- The symbol that is found is a beginning of the text, and no longer one is. -/
theorem Symbol.of_longest? {s : Symbol} (h : longest? cs = some s) :
    s.text.toList <+: cs ∧
      ∀ other : Symbol, other.text.toList <+: cs → other.text.length ≤ s.text.length := by
  obtain ⟨hs, longer, shorter, hall, hlonger⟩ := List.find?_eq_some_iff_append.mp h
  refine ⟨List.isPrefixOf_iff_prefix.mp hs, fun other hother => ?_⟩
  have hmem := mem_all other
  have hpairwise := pairwise_all
  rw [hall, List.mem_append, List.mem_cons] at hmem
  rw [hall, List.pairwise_append, List.pairwise_cons] at hpairwise
  obtain hmem | rfl | hmem := hmem
  · have := hlonger other hmem
    rw [List.isPrefixOf_iff_prefix.mpr hother] at this
    exact absurd this (by decide)
  · exact Nat.le_refl _
  · exact hpairwise.2.1.1 other hmem

/-- The lexeme that is read first is a blank or the spelling of a token. -/
theorem Lexeme.spelt_of_next {lexeme : Lexeme} (h : next c cs = .ok (lexeme, rest)) :
    (lexeme = .blank ∧ isBlank c = true ∧ rest = cs) ∨
      ∃ t spelling, lexeme = .token t ∧ c :: cs = spelling ++ rest ∧ t.Spelt spelling rest := by
  unfold next at h
  split at h
  · rename_i hblank
    obtain ⟨rfl, rfl⟩ := Prod.mk.inj (Except.ok.inj h)
    exact .inl ⟨rfl, hblank, rfl⟩
  · refine .inr ?_
    split at h
    · rename_i s hs
      obtain ⟨rfl, rfl⟩ := Prod.mk.inj (Except.ok.inj h)
      obtain ⟨⟨tail, htail⟩, hlongest⟩ := Symbol.of_longest? hs
      rw [← htail] at hlongest ⊢
      rw [← String.length_toList, List.drop_left]
      exact ⟨.symbol s, s.text.toList, rfl, rfl, .symbol hlongest⟩
    · split at h
      · rename_i hquote
        split at h
        · rename_i contents tail hclose
          obtain ⟨rfl, rfl⟩ := Prod.mk.inj (Except.ok.inj h)
          obtain ⟨written, rfl, hwritten⟩ := quotedAs_of_closeString? hclose
          exact ⟨_, c :: (written ++ [c]), rfl, by simp, .str hquote hwritten⟩
        · exact absurd h (by simp)
      · split at h
        · rename_i hname
          obtain ⟨rfl, rfl⟩ := Prod.mk.inj (Except.ok.inj h)
          refine ⟨_, c :: cs.takeWhile isNameChar, rfl, by simp, .word (by simp) ?_ ?_⟩
          · rw [List.forall_mem_cons]
            exact ⟨hname, List.all_eq_true.mp List.all_takeWhile⟩
          · have hstop := List.head?_dropWhile_not isNameChar cs
            cases hhead : (cs.dropWhile isNameChar).head? with
            | none => rfl
            | some d => rw [hhead] at hstop; exact hstop
        · exact absurd h (by simp)

theorem tokensFrom_nil (position : Nat) : tokensFrom position [] = .ok [] := by
  rw [tokensFrom]

/-- The tokens of a text are those of its first lexeme and those of the rest. -/
theorem tokensFrom_cons {position : Nat} {lexeme : Lexeme}
    (hnext : Lexeme.next c cs = .ok (lexeme, rest))
    (hrest : tokensFrom (position + ((c :: cs).length - rest.length)) rest = .ok ts) :
    tokensFrom position (c :: cs) = .ok (lexeme.tokens ++ ts) := by
  rw [tokensFrom]
  split
  · rename_i hfault
    rw [hnext] at hfault
    exact absurd hfault (by simp)
  · rename_i hother
    obtain ⟨rfl, rfl⟩ := Prod.mk.inj (Except.ok.inj (hnext.symm.trans hother))
    rw [hrest]

theorem readAs_of_tokensFrom {position : Nat} (h : tokensFrom position text = .ok ts) :
    ReadAs text ts := by
  fun_induction tokensFrom position text generalizing ts with
  | case1 => cases h; exact .nil
  | case2 => simp at h
  | case3 => simp at h
  | case4 position c cs lexeme rest hnext us hus ih =>
    obtain rfl := Except.ok.inj h
    obtain ⟨rfl, hblank, rfl⟩ | ⟨t, spelling, rfl, htext, hspelt⟩ := Lexeme.spelt_of_next hnext
    · exact .blank hblank (ih hus)
    · rw [htext]
      exact .token hspelt (ih hus)

/-- **What a text is tokenized as, it can be read as.** -/
theorem readAs_of_tokenize {text : String} (h : tokenize text = .ok ts) : ReadAs text.toList ts :=
  readAs_of_tokensFrom h

/-! ### What stands beside a spelling -/

/-- Behind a word character no name starts. -/
def Separate (before : Option Char) (text : List Char) : Prop :=
  before.any isWord = true → text.head?.any isNameChar = false

theorem separate_none : Separate none text := by
  intro h
  exact absurd h (by simp)

theorem separate_of_isWord_eq_false (h : isWord c = false) : Separate (some c) text := by
  intro hc
  exact absurd (h.symm.trans hc) (by decide)

namespace Token.Spelt

/-- If a spelling starts with a word character, this is one of a name. -/
theorem exists_eq_cons (h : t.Spelt spelling rest) :
    ∃ c tail, spelling = c :: tail ∧ (isWord c = true → isNameChar c = true) := by
  cases h with
  | @symbol s =>
    obtain ⟨c, tail, hs⟩ := List.exists_cons_of_length_pos (Lexeme.length_symbol_pos s)
    refine ⟨c, tail, hs, fun hc => ?_⟩
    have := isWord_eq_false_of_mem_symbol (hs ▸ List.mem_cons_self ..)
    exact absurd (this.symm.trans hc) (by decide)
  | str hmark =>
    have := isWord_eq_false_of_isQuote hmark
    exact ⟨_, _, rfl, fun hc => absurd (this.symm.trans hc) (by decide)⟩
  | word hne hword =>
    obtain ⟨c, tail, rfl⟩ := List.exists_cons_of_ne_nil hne
    exact ⟨c, tail, rfl, fun _ => hword c (List.mem_cons_self ..)⟩

/-- Behind a spelling that ends with a word character no name starts. -/
theorem separate (h : t.Spelt spelling rest) (before : Option Char) :
    Separate (spelling.getLast?.or before) rest := by
  cases h with
  | @symbol s =>
    cases hlast : s.text.toList.getLast? with
    | none =>
      rw [List.getLast?_eq_none_iff] at hlast
      have := Lexeme.length_symbol_pos s
      rw [← String.length_toList, hlast] at this
      exact absurd this (by decide)
    | some c =>
      exact separate_of_isWord_eq_false (isWord_eq_false_of_mem_symbol (List.mem_of_getLast? hlast))
  | @str mark _ written _ hmark =>
    rw [← List.cons_append, List.getLast?_append]
    exact separate_of_isWord_eq_false (isWord_eq_false_of_isQuote hmark)
  | word _ _ hrest => exact fun _ => hrest

theorem of_symbol {s : Symbol} (h : (Token.symbol s).Spelt spelling rest) :
    spelling = s.text.toList := by
  generalize hsymbol : Token.symbol s = t at h
  cases h with
  | symbol => cases hsymbol; rfl
  | str => cases hsymbol
  | word =>
    unfold Token.ofWord at hsymbol
    split at hsymbol <;> cases hsymbol

/-- An identifier is spelt as its name, and no name goes on behind it. -/
theorem of_ident (h : (Token.ident name).Spelt spelling rest) :
    spelling = name.toList ∧ (∀ c ∈ name.toList, isNameChar c = true) ∧
      rest.head?.any isNameChar = false := by
  generalize hident : Token.ident name = t at h
  cases h with
  | symbol => cases hident
  | str => cases hident
  | word hne hword hrest =>
    unfold Token.ofWord at hident
    split at hident
    · cases hident
    · obtain rfl := Token.ident.inj hident
      rw [String.toList_ofList]
      exact ⟨rfl, hword, hrest⟩

end Token.Spelt

namespace ReadAs

/-- If a text that can be read starts with a word character, this is one of a name. -/
theorem isWord_head (h : ReadAs text ts) (hname : text.head?.any isNameChar = false) :
    text.head?.any isWord = false := by
  cases h with
  | nil => rfl
  | blank hc => exact isWord_eq_false_of_isBlank hc
  | token ht =>
    obtain ⟨c, tail, rfl, hc⟩ := ht.exists_eq_cons
    rw [← Bool.not_eq_true] at hname ⊢
    exact fun hword => hname (hc hword)

/-- In front of the first token only blanks stand. -/
theorem exists_blanks (h : ReadAs text (t :: ts)) (hbefore : Separate before text) :
    ∃ blanks spelling rest, text = blanks ++ spelling ++ rest ∧ (∀ c ∈ blanks, isBlank c = true) ∧
      t.Spelt spelling rest ∧ ReadAs rest ts ∧
      Separate (blanks.getLast?.or before) (spelling ++ rest) := by
  generalize hus : t :: ts = us at h
  induction h generalizing before with
  | nil => cases hus
  | @blank c rest us hc h ih =>
    obtain ⟨blanks, spelling, rest, rfl, hblanks, ht, hts, hsep⟩ :=
      ih (separate_of_isWord_eq_false (isWord_eq_false_of_isBlank hc)) hus
    refine ⟨c :: blanks, spelling, rest, rfl, List.forall_mem_cons.mpr ⟨hc, hblanks⟩, ht, hts, ?_⟩
    rwa [getLast?_cons_or]
  | @token u spelling rest us ht h =>
    obtain ⟨rfl, rfl⟩ := List.cons.inj hus
    exact ⟨[], spelling, rest, rfl, by simp, ht, h, hbefore⟩

/-- Where a token stands in the text. -/
theorem exists_spelling (h : ReadAs text (pre ++ t :: post)) (hbefore : Separate before text) :
    ∃ front spelling rest, text = front ++ spelling ++ rest ∧ t.Spelt spelling rest ∧
      ReadAs rest post ∧ Separate (front.getLast?.or before) (spelling ++ rest) := by
  induction pre generalizing text before with
  | nil =>
    obtain ⟨blanks, spelling, rest, htext, -, h⟩ := h.exists_blanks hbefore
    exact ⟨blanks, spelling, rest, htext, h⟩
  | cons u pre ih =>
    obtain ⟨blanks, first, rest, rfl, -, hu, hrest, -⟩ := h.exists_blanks hbefore
    obtain ⟨front, spelling, rest, rfl, ht, hpost, hsep⟩ :=
      ih hrest (hu.separate (blanks.getLast?.or before))
    refine ⟨blanks ++ first ++ front, spelling, rest, by simp, ht, hpost, ?_⟩
    rwa [List.getLast?_append, List.getLast?_append, Option.or_assoc, Option.or_assoc]

/-- **In a text that can be read, a name has no word character beside it.** -/
theorem exists_name (h : ReadAs text (pre ++ .ident name :: post)) :
    ∃ front rest, text = front ++ name.toList ++ rest ∧ front.getLast?.any isWord = false ∧
      rest.head?.any isWord = false ∧ (∀ c ∈ name.toList, isNameChar c = true) ∧
      rest.head?.any isNameChar = false ∧ ReadAs rest post := by
  obtain ⟨front, spelling, rest, rfl, hname, hpost, hsep⟩ := h.exists_spelling separate_none
  obtain ⟨c, tail, hspelling, -⟩ := hname.exists_eq_cons
  obtain ⟨rfl, hchars, hrest⟩ := hname.of_ident
  refine ⟨front, rest, rfl, ?_, hpost.isWord_head hrest, hchars, hrest, hpost⟩
  rw [← Bool.not_eq_true]
  intro hfront
  rw [Option.or_none, hspelling] at hsep
  have := hchars c (by rw [hspelling]; exact List.mem_cons_self ..)
  exact absurd (this.symm.trans (hsep hfront)) (by decide)

end ReadAs

end RuleConditions
