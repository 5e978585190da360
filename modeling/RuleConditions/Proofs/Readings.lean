import RuleConditions.Proofs.Lexemes

/-!
# Readings of a text

A reading cuts a text from the left into pieces, each a lexeme with its spelling.
`ReadTo rest text pieces` says that these pieces stand in front of `rest`, and a text is read to its
end where nothing is left.

The first lexeme of a text is the only one that is spelt there (`Lexeme.next_eq_ok_iff`).  So the
tokenizer goes on from the end of every reading (`ReadTo.tokensFrom_eq`), and a reading to the end
is the only one (`ReadTo.unique`).  Every text can be read up to its end or up to a place where no
lexeme starts (`exists_readTo`).
-/

namespace RuleConditions

open Text (isBlank)

variable {c mark : Char} {cs contents written spelling rest text : List Char} {t : Token}
  {ts : List Token} {lexeme : Lexeme}

/-! ### Symbols -/

/-- No symbol holds a blank, a quote mark or a character of names. -/
theorem kinds_of_mem_symbol {s : Symbol} (h : c ∈ s.text.toList) :
    isBlank c = false ∧ isQuote c = false ∧ isNameChar c = false := by
  have hall : s.text.toList.all (fun d => !isBlank d && !isQuote d && !isNameChar d) = true := by
    rcases s with ((_ | _) | (_ | _) | (_ | _)) | _ | (_ | _) | (_ | _) | _ <;> decide
  have hc := List.all_eq_true.mp hall c h
  simpa [and_assoc] using hc

namespace Symbol

theorem eq_of_text_eq {s other : Symbol} (h : s.text = other.text) : s = other := by
  have hall : ∀ s ∈ all, ∀ other ∈ all, s.text = other.text → s = other := by decide
  exact hall s s.mem_all other other.mem_all h

/-- The symbol that is found is the longest with which the text starts. -/
theorem longest?_eq_some_iff {s : Symbol} :
    longest? cs = some s ↔ s.text.toList <+: cs ∧
      ∀ other : Symbol, other.text.toList <+: cs → other.text.length ≤ s.text.length := by
  refine ⟨of_longest?, fun ⟨hs, hlongest⟩ => ?_⟩
  cases hfound : longest? cs with
  | none =>
    have := List.find?_eq_none.mp hfound s s.mem_all
    rw [List.isPrefixOf_iff_prefix] at this
    exact absurd hs this
  | some found =>
    obtain ⟨hfound, hfoundLongest⟩ := of_longest? hfound
    -- both are the longest, so they are spelt with the same characters
    have hlength : found.text.toList.length = s.text.toList.length := by
      rw [String.length_toList, String.length_toList]
      exact Nat.le_antisymm (hlongest found hfound) (hfoundLongest s hs)
    have hprefix := List.prefix_of_prefix_length_le hfound hs (Nat.le_of_eq hlength)
    have htext := hprefix.eq_of_length hlength
    rw [eq_of_text_eq (String.toList_injective htext)]

theorem longest?_eq_none_iff :
    longest? cs = none ↔ ∀ s : Symbol, ¬ s.text.toList <+: cs := by
  rw [longest?, List.find?_eq_none]
  constructor
  · intro h s hs
    exact h s s.mem_all (List.isPrefixOf_iff_prefix.mpr hs)
  · intro h s _ hs
    exact h s (List.isPrefixOf_iff_prefix.mp hs)

/-- A symbol that a text starts with holds the first character. -/
theorem mem_of_prefix_cons {s : Symbol} (h : s.text.toList <+: c :: cs) : c ∈ s.text.toList := by
  obtain ⟨d, tail, hs⟩ := List.exists_cons_of_length_pos (Lexeme.length_symbol_pos s)
  change s.text.toList = d :: tail at hs
  rw [hs] at h ⊢
  rw [(List.cons_prefix_cons.mp h).1]
  exact List.mem_cons_self ..

end Symbol

/-! ### The first lexeme -/

theorem isBlank_eq_false_of_isQuote (h : isQuote c = true) : isBlank c = false := by
  rw [isQuote, Bool.or_eq_true, beq_iff_eq, beq_iff_eq] at h
  obtain rfl | rfl := h <;> decide

theorem isQuote_eq_false_of_isNameChar (h : isNameChar c = true) : isQuote c = false := by
  rw [← Bool.not_eq_true, isQuote, Bool.or_eq_true, beq_iff_eq, beq_iff_eq]
  rintro (rfl | rfl) <;> exact absurd h (by decide)

/-- No symbol stands where a string or a word starts. -/
theorem Symbol.longest?_eq_none_of_isQuote (h : isQuote c = true) :
    longest? (c :: cs) = none := by
  refine longest?_eq_none_iff.mpr fun s hs => ?_
  have := (kinds_of_mem_symbol (mem_of_prefix_cons hs)).2.1
  exact absurd (this.symm.trans h) (by decide)

@[inherit_doc Symbol.longest?_eq_none_of_isQuote]
theorem Symbol.longest?_eq_none_of_isNameChar (h : isNameChar c = true) :
    longest? (c :: cs) = none := by
  refine longest?_eq_none_iff.mpr fun s hs => ?_
  have := (kinds_of_mem_symbol (mem_of_prefix_cons hs)).2.2
  exact absurd (this.symm.trans h) (by decide)

/-- A string ends at the quote mark behind what is written in it. -/
theorem closeString?_append (hmark : isQuote mark = true) (h : QuotedAs mark contents written) :
    closeString? mark (written ++ mark :: rest) = some (contents, rest) := by
  have hescape : '\\' ≠ mark := by
    rintro rfl
    exact absurd hmark (by decide)
  induction h with
  | nil =>
    cases rest with
    | nil => simp [closeString?]
    | cons d rest => simp [closeString?]
  | escaped d _ ih => simp [closeString?, hescape, ih]
  | @plain d contents written hd hplain _ ih =>
    -- what follows `d` is not empty, which the recursion asks for
    obtain ⟨e, es, hes⟩ : ∃ e es, written ++ mark :: rest = e :: es :=
      List.exists_cons_of_ne_nil (by simp)
    rw [List.cons_append, hes]
    rw [hes] at ih
    simp [closeString?, hd, hplain, ih]

/-- How a lexeme is spelt in front of the rest of a text. -/
inductive Lexeme.Spelt : Lexeme → (spelling rest : List Char) → Prop
  | blank {c : Char} {rest : List Char} (hc : isBlank c = true) : Spelt .blank [c] rest
  | token {t : Token} {spelling rest : List Char} (ht : t.Spelt spelling rest) :
    Spelt (.token t) spelling rest

theorem Token.Spelt.next (h : t.Spelt spelling rest) (hcs : spelling ++ rest = c :: cs) :
    Lexeme.next c cs = .ok (.token t, rest) := by
  cases h with
  | @symbol s rest hlongest =>
    have hfound : Symbol.longest? (c :: cs) = some s := by
      rw [← hcs]
      exact Symbol.longest?_eq_some_iff.mpr ⟨List.prefix_append _ _, hlongest⟩
    have hblank : isBlank c = false :=
      (kinds_of_mem_symbol (Symbol.mem_of_prefix_cons (Symbol.of_longest? hfound).1)).1
    have hdrop : (c :: cs).drop s.text.length = rest := by
      rw [← hcs, ← String.length_toList, List.drop_left]
    simp [Lexeme.next, hblank, hfound, hdrop]
  | @str mark contents written rest hmark h =>
    rw [List.cons_append, List.append_assoc, List.singleton_append, List.cons.injEq] at hcs
    obtain ⟨rfl, rfl⟩ := hcs
    simp [Lexeme.next, isBlank_eq_false_of_isQuote hmark, Symbol.longest?_eq_none_of_isQuote hmark,
      hmark, closeString?_append hmark h]
  | @word word rest hne hword hrest =>
    obtain ⟨d, tail, rfl⟩ := List.exists_cons_of_ne_nil hne
    rw [List.cons_append, List.cons.injEq] at hcs
    obtain ⟨rfl, rfl⟩ := hcs
    obtain ⟨hd, htail⟩ := List.forall_mem_cons.mp hword
    have hstop : rest.takeWhile isNameChar = [] ∧ rest.dropWhile isNameChar = rest := by
      cases rest with
      | nil => exact ⟨rfl, rfl⟩
      | cons e rest =>
        have he : isNameChar e = false := hrest
        simp [he]
    simp [Lexeme.next, isBlank_eq_false_of_isNameChar hd, Symbol.longest?_eq_none_of_isNameChar hd,
      isQuote_eq_false_of_isNameChar hd, hd, List.takeWhile_append_of_pos htail,
      List.dropWhile_append_of_pos htail, hstop.1, hstop.2]

/-- **The first lexeme of a text** is the one that is spelt there in front of the rest. -/
theorem Lexeme.next_eq_ok_iff :
    next c cs = .ok (lexeme, rest) ↔
      ∃ spelling, c :: cs = spelling ++ rest ∧ lexeme.Spelt spelling rest := by
  constructor
  · intro h
    obtain ⟨rfl, hc, rfl⟩ | ⟨t, spelling, rfl, hcs, ht⟩ := spelt_of_next h
    · exact ⟨[c], rfl, .blank hc⟩
    · exact ⟨spelling, hcs, .token ht⟩
  · rintro ⟨spelling, hcs, h⟩
    cases h with
    | blank hc =>
      obtain ⟨rfl, rfl⟩ := List.cons.inj hcs
      simp [next, hc]
    | token ht => exact ht.next hcs.symm

theorem Lexeme.Spelt.ne_nil (h : lexeme.Spelt spelling rest) : spelling ≠ [] := by
  cases h with
  | blank => exact List.cons_ne_nil _ _
  | token ht =>
    obtain ⟨c, tail, rfl, -⟩ := ht.exists_eq_cons
    exact List.cons_ne_nil c tail

/-! ### Readings -/

/-- A lexeme with its spelling. -/
structure SpeltLexeme where
  lexeme : Lexeme
  spelling : List Char

namespace SpeltLexeme

/-- The text that pieces make up. -/
def textAll (pieces : List SpeltLexeme) : List Char := pieces.flatMap (·.spelling)

/-- The tokens among pieces, in order. -/
def tokensAll (pieces : List SpeltLexeme) : List Token := pieces.flatMap (·.lexeme.tokens)

@[simp]
theorem textAll_nil : textAll [] = [] := rfl

@[simp]
theorem textAll_cons (p : SpeltLexeme) (pieces : List SpeltLexeme) :
    textAll (p :: pieces) = p.spelling ++ textAll pieces := rfl

@[simp]
theorem tokensAll_nil : tokensAll [] = [] := rfl

@[simp]
theorem tokensAll_cons (p : SpeltLexeme) (pieces : List SpeltLexeme) :
    tokensAll (p :: pieces) = p.lexeme.tokens ++ tokensAll pieces := rfl

end SpeltLexeme

open SpeltLexeme (textAll tokensAll)

/-- The text is read as these pieces up to `rest`.  Each piece is spelt in front of all that follows
it. -/
inductive ReadTo (rest : List Char) : (text : List Char) → List SpeltLexeme → Prop
  | stop : ReadTo rest rest []
  | piece {p : SpeltLexeme} {more : List Char} {pieces : List SpeltLexeme}
      (hp : p.lexeme.Spelt p.spelling more) (h : ReadTo rest more pieces) :
    ReadTo rest (p.spelling ++ more) (p :: pieces)

variable {pieces others : List SpeltLexeme} {position : Nat}

/-- The tokens of a text are those of its first lexeme and those of the rest. -/
theorem tokensFrom_of_next (h : Lexeme.next c cs = .ok (lexeme, rest)) :
    tokensFrom position (c :: cs) =
      (tokensFrom (position + ((c :: cs).length - rest.length)) rest).map (lexeme.tokens ++ ·) := by
  rw [tokensFrom]
  split
  · rename_i hfault
    exact absurd (h.symm.trans hfault) (by simp)
  · rename_i hother
    obtain ⟨rfl, rfl⟩ := Prod.mk.inj (Except.ok.inj (h.symm.trans hother))
    cases tokensFrom (position + ((c :: cs).length - rest.length)) rest <;> rfl

theorem tokensFrom_of_fault {fault : LexicalFault} (h : Lexeme.next c cs = .error fault) :
    tokensFrom position (c :: cs) = .error (fault.at position) := by
  rw [tokensFrom]
  split
  · rename_i hfault
    rw [Except.error.inj (h.symm.trans hfault)]
  · rename_i hother
    exact absurd (h.symm.trans hother) (by simp)

/-- Every text can be read up to its end, or up to a place where no lexeme starts. -/
theorem exists_readTo (text : List Char) :
    ∃ pieces rest, ReadTo rest text pieces ∧
      ∀ c cs, rest = c :: cs → ∃ fault, Lexeme.next c cs = .error fault := by
  induction h : text.length using Nat.strongRecOn generalizing text with
  | ind n ih =>
  cases text with
  | nil => exact ⟨[], [], .stop, by simp⟩
  | cons c cs =>
    cases hnext : Lexeme.next c cs with
    | error fault =>
      refine ⟨[], c :: cs, .stop, fun d ds hd => ⟨fault, ?_⟩⟩
      obtain ⟨rfl, rfl⟩ := List.cons.inj hd
      exact hnext
    | ok read =>
      obtain ⟨lexeme, more⟩ := read
      have hshorter := Lexeme.length_next_lt hnext
      obtain ⟨spelling, htext, hspelt⟩ := Lexeme.next_eq_ok_iff.mp hnext
      obtain ⟨pieces, rest, hmore, hrest⟩ := ih more.length (by omega) more rfl
      refine ⟨⟨lexeme, spelling⟩ :: pieces, rest, ?_, hrest⟩
      rw [htext]
      exact @ReadTo.piece rest ⟨lexeme, spelling⟩ more pieces hspelt hmore

namespace ReadTo

/-- Nothing is lost. -/
theorem textAll_append (h : ReadTo rest text pieces) : textAll pieces ++ rest = text := by
  induction h with
  | stop => rfl
  | piece _ _ ih => rw [SpeltLexeme.textAll_cons, List.append_assoc, ih]

/-- **The tokenizer goes on from the end of a reading.** -/
theorem tokensFrom_eq (h : ReadTo rest text pieces) (position : Nat) :
    tokensFrom position text =
      (tokensFrom (position + (textAll pieces).length) rest).map (tokensAll pieces ++ ·) := by
  induction h generalizing position with
  | stop =>
    rw [SpeltLexeme.textAll_nil, List.length_nil, Nat.add_zero]
    cases tokensFrom position rest <;> rfl
  | @piece p more pieces hp h ih =>
    obtain ⟨c, tail, hspelling⟩ := List.exists_cons_of_ne_nil hp.ne_nil
    have htext : p.spelling ++ more = c :: (tail ++ more) := by rw [hspelling, List.cons_append]
    have hnext := Lexeme.next_eq_ok_iff.mpr ⟨p.spelling, htext.symm, hp⟩
    have hlength : (c :: (tail ++ more)).length - more.length = p.spelling.length := by
      rw [← htext, List.length_append, Nat.add_sub_cancel]
    rw [htext, tokensFrom_of_next hnext, hlength, ih, SpeltLexeme.textAll_cons, List.length_append,
      Nat.add_assoc]
    cases tokensFrom (position + (p.spelling.length + (textAll pieces).length)) rest with
    | error e => rfl
    | ok ts => simp [Except.map]

/-- **A text is read to its end in one way only.** -/
theorem unique (h : ReadTo [] text pieces) (hothers : ReadTo [] text others) :
    pieces = others := by
  induction h generalizing others with
  | stop =>
    generalize htext : ([] : List Char) = text at hothers
    cases hothers with
    | stop => rfl
    | piece hp => exact absurd htext.symm (by simp [hp.ne_nil])
  | @piece p more pieces hp _ ih =>
    generalize htext : p.spelling ++ more = text at hothers
    cases hothers with
    | stop => exact absurd htext (by simp [hp.ne_nil])
    | @piece q rest others hq hothers =>
      obtain ⟨c, tail, hspelling⟩ := List.exists_cons_of_ne_nil hp.ne_nil
      have hcs : c :: (tail ++ more) = p.spelling ++ more := by rw [hspelling, List.cons_append]
      -- both pieces are the first lexeme of the same text
      have hnext := Lexeme.next_eq_ok_iff.mpr ⟨p.spelling, hcs, hp⟩
      have hother := Lexeme.next_eq_ok_iff.mpr ⟨q.spelling, hcs.trans htext, hq⟩
      obtain ⟨hlexeme, rfl⟩ := Prod.mk.inj (Except.ok.inj (hnext.symm.trans hother))
      have hpq : p = q := by
        cases p
        cases q
        rw [SpeltLexeme.mk.injEq]
        exact ⟨hlexeme, List.append_cancel_right htext⟩
      rw [hpq, ih hothers]

end ReadTo

/-- The tokens of a text are those of its reading. -/
theorem tokenize_eq_ok_iff {text : String} :
    tokenize text = .ok ts ↔ ∃ pieces, ReadTo [] text.toList pieces ∧ tokensAll pieces = ts := by
  constructor
  · intro h
    obtain ⟨pieces, rest, hread, hrest⟩ := exists_readTo text.toList
    rw [tokenize, hread.tokensFrom_eq] at h
    cases rest with
    | nil =>
      rw [tokensFrom_nil] at h
      exact ⟨pieces, hread, by simpa [Except.map] using h⟩
    | cons c cs =>
      obtain ⟨fault, hfault⟩ := hrest c cs rfl
      rw [tokensFrom_of_fault hfault] at h
      exact absurd h (by simp [Except.map])
  · rintro ⟨pieces, hread, rfl⟩
    rw [tokenize, hread.tokensFrom_eq, tokensFrom_nil]
    simp [Except.map]

theorem ReadAs.exists_readTo (h : ReadAs text ts) :
    ∃ pieces, ReadTo [] text pieces ∧ tokensAll pieces = ts := by
  induction h with
  | nil => exact ⟨[], .stop, rfl⟩
  | @blank c rest ts hc _ ih =>
    obtain ⟨pieces, hpieces, rfl⟩ := ih
    exact ⟨⟨.blank, [c]⟩ :: pieces, @ReadTo.piece [] ⟨.blank, [c]⟩ rest pieces (.blank hc) hpieces,
      rfl⟩
  | @token t spelling rest ts ht _ ih =>
    obtain ⟨pieces, hpieces, rfl⟩ := ih
    exact ⟨⟨.token t, spelling⟩ :: pieces,
      @ReadTo.piece [] ⟨.token t, spelling⟩ rest pieces (.token ht) hpieces, rfl⟩

/-- **A text is tokenized as what it can be read as**, and as nothing else. -/
theorem tokenize_eq_ok_iff_readAs {text : String} :
    tokenize text = .ok ts ↔ ReadAs text.toList ts :=
  ⟨readAs_of_tokenize, fun h => tokenize_eq_ok_iff.mpr h.exists_readTo⟩

/-! ### Counting tokens -/

/-- A spelling has a character that is no blank. -/
theorem Token.Spelt.countP_pos (h : t.Spelt spelling rest) :
    0 < spelling.countP (fun c => !isBlank c) := by
  rw [List.countP_pos_iff]
  cases h with
  | @symbol s =>
    obtain ⟨c, hc⟩ := List.exists_mem_of_length_pos (Lexeme.length_symbol_pos s)
    exact ⟨c, hc, by simp [(kinds_of_mem_symbol hc).1]⟩
  | str hmark => exact ⟨_, List.mem_cons_self .., by simp [isBlank_eq_false_of_isQuote hmark]⟩
  | word hne hword =>
    obtain ⟨c, hc⟩ := List.exists_mem_of_ne_nil _ hne
    exact ⟨c, hc, by simp [isBlank_eq_false_of_isNameChar (hword c hc)]⟩

theorem ReadTo.length_tokensAll_le (h : ReadTo rest text pieces) :
    (tokensAll pieces).length ≤ text.countP (fun c => !isBlank c) := by
  induction h with
  | stop => exact Nat.zero_le _
  | @piece p more pieces hp _ ih =>
    have hpiece : p.lexeme.tokens.length ≤ p.spelling.countP (fun c => !isBlank c) := by
      cases hlexeme : p.lexeme with
      | blank => exact Nat.zero_le _
      | token t =>
        rw [hlexeme] at hp
        cases hp with
        | token ht => exact ht.countP_pos
    rw [SpeltLexeme.tokensAll_cons, List.length_append, List.countP_append]
    omega

/-! ### The grammar of lexemes -/

/-- **The tokenizer accepts exactly what can be read** as blanks, longest symbols, strings and
longest words, a text can be read in one way only, and there are no more tokens than characters
that are not blank. -/
theorem tokenize_ok_iff_readTo_and_unique (text : String) :
    (∀ ts, tokenize text = .ok ts ↔
      ∃ pieces, ReadTo [] text.toList pieces ∧ tokensAll pieces = ts) ∧
    (∀ pieces others, ReadTo [] text.toList pieces → ReadTo [] text.toList others →
      pieces = others) ∧
    ∀ ts, tokenize text = .ok ts → ts.length ≤ text.toList.countP fun c => !isBlank c := by
  refine ⟨fun ts => tokenize_eq_ok_iff, fun pieces others => ReadTo.unique, fun ts h => ?_⟩
  obtain ⟨pieces, hread, rfl⟩ := tokenize_eq_ok_iff.mp h
  exact hread.length_tokensAll_le

/-- Between an identifier and a number, behind the longest symbol the same characters stand in a
string. -/
theorem tokenize_ok_iff_readTo_and_unique_of_symbol :
    let ts : List Token := [.ident "x1", .symbol (.operator (.comparison .identical)), .str "==",
      .number "2.5"]
    tokenize "x1=== '=='2.5" = .ok ts ∧
      (∃ pieces, ReadTo [] "x1=== '=='2.5".toList pieces ∧ tokensAll pieces = ts ∧
        ∀ others, ReadTo [] "x1=== '=='2.5".toList others → others = pieces) ∧
      ts.length ≤ "x1=== '=='2.5".toList.countP fun c => !isBlank c := by
  intro ts
  have hname : Lexeme.next 'x' "1=== '=='2.5".toList =
      .ok (.token (.ident "x1"), "=== '=='2.5".toList) := rfl
  have hsymbol : Lexeme.next '=' "== '=='2.5".toList =
      .ok (.token (.symbol (.operator (.comparison .identical))), " '=='2.5".toList) := rfl
  have hblank : Lexeme.next ' ' "'=='2.5".toList = .ok (.blank, "'=='2.5".toList) := rfl
  have hstring : Lexeme.next '\'' "=='2.5".toList = .ok (.token (.str "=="), "2.5".toList) := rfl
  have hnumber : Lexeme.next '2' ".5".toList = .ok (.token (.number "2.5"), []) := rfl
  have htokens : tokenize "x1=== '=='2.5" = .ok ts :=
    tokensFrom_cons hname (tokensFrom_cons hsymbol (tokensFrom_cons hblank
      (tokensFrom_cons hstring (tokensFrom_cons hnumber (tokensFrom_nil _)))))
  obtain ⟨hiff, hunique, hlength⟩ := tokenize_ok_iff_readTo_and_unique "x1=== '=='2.5"
  obtain ⟨pieces, hread, hpieces⟩ := (hiff ts).mp htokens
  refine ⟨htokens, ⟨pieces, hread, hpieces, fun others hothers => ?_⟩, hlength ts htokens⟩
  exact hunique others pieces hothers hread

end RuleConditions
