import RuleConditions.Error
import RuleConditions.Proofs.Readings

/-!
# Tokens as text are read back

A message shows tokens that form no operand with a space between each two.  That text is read as the
same tokens again (`tokenize_text_and_hasWord`), provided that the words of numbers and identifiers
are words (`Token.HasWord`, which holds of every token that was ever read) and that nothing in a
string is shown by its code point (`Token.ShowsContents`).

A token is spelt as its text in front of a space, whatever follows: no symbol and no word goes on
across a space.
-/

namespace RuleConditions

open Text (isBlank quoteChar)

variable {c : Char} {spelling rest word text contents : List Char} {t : Token} {ts : List Token}

/-! ### Words -/

/-- A number is a word of digits and dots, and an identifier any other word. -/
def Token.HasWord : Token → Prop
  | .number word => word.toList ≠ [] ∧ ∀ c ∈ word.toList, c.isDigit = true ∨ c = '.'
  | .ident name => name.toList ≠ [] ∧ (∀ c ∈ name.toList, isNameChar c = true) ∧
      ∃ c ∈ name.toList, c.isDigit = false ∧ c ≠ '.'
  | .str _ | .symbol _ => True

theorem isNameChar_of_isDigit_or_dot (h : c.isDigit = true ∨ c = '.') : isNameChar c = true := by
  obtain h | rfl := h
  · simp [isNameChar, Char.isAlphanum, h]
  · decide

/-- The token of a word has that word. -/
theorem Token.hasWord_ofWord (hne : word ≠ []) (hword : ∀ c ∈ word, isNameChar c = true) :
    (ofWord word).HasWord := by
  unfold ofWord
  split
  · rename_i hdigits
    refine ⟨by rwa [String.toList_ofList], fun c hc => ?_⟩
    rw [String.toList_ofList] at hc
    simpa using List.all_eq_true.mp hdigits c hc
  · rename_i hdigits
    rw [Bool.not_eq_true, List.all_eq_false] at hdigits
    obtain ⟨c, hc, hnot⟩ := hdigits
    rw [HasWord, String.toList_ofList]
    exact ⟨hne, hword, c, hc, by simpa using hnot⟩

theorem ReadAs.hasWord (h : ReadAs text ts) : ∀ t ∈ ts, t.HasWord := by
  induction h with
  | nil => simp
  | blank _ _ ih => exact ih
  | token ht _ ih =>
    refine List.forall_mem_cons.mpr ⟨?_, ih⟩
    cases ht with
    | symbol => trivial
    | str => trivial
    | word hne hword => exact Token.hasWord_ofWord hne hword

/-- Where a word is of digits and dots, or is not, its token is the number, or the identifier. -/
theorem Token.HasWord.ofWord_number {word : String} (h : (Token.number word).HasWord) :
    ofWord word.toList = .number word := by
  have hdigits : (word.toList.all fun c => c.isDigit || c == '.') = true :=
    List.all_eq_true.mpr fun c hc => by simpa using h.2 c hc
  rw [ofWord, if_pos hdigits, String.ofList_toList]

@[inherit_doc Token.HasWord.ofWord_number]
theorem Token.HasWord.ofWord_ident {name : String} (h : (Token.ident name).HasWord) :
    ofWord name.toList = .ident name := by
  obtain ⟨-, -, c, hc, hdigit, hdot⟩ := h
  have hother : ¬(name.toList.all fun c => c.isDigit || c == '.') = true := by
    intro hall
    have := List.all_eq_true.mp hall c hc
    simp [hdigit, hdot] at this
  rw [ofWord, if_neg hother, String.ofList_toList]

/-! ### Strings -/

/-- Every character of a string is shown as it is, or behind a backslash. -/
def Token.ShowsContents : Token → Prop
  | .str contents =>
    ∀ c ∈ contents.toList, quoteChar '"' c = [c] ∨ c = '"' ∨ c = '\\'
  | _ => True

/-- What is shown between the quote marks stands for the contents. -/
theorem quotedAs_flatMap_quoteChar
    (h : ∀ c ∈ contents, quoteChar '"' c = [c] ∨ c = '"' ∨ c = '\\') :
    QuotedAs '"' contents (contents.flatMap (quoteChar '"')) := by
  induction contents with
  | nil => exact .nil
  | cons c contents ih =>
    obtain ⟨hc, hcontents⟩ := List.forall_mem_cons.mp h
    rw [List.flatMap_cons]
    obtain hc | rfl | rfl := hc
    · have hmark : c ≠ '"' := by
        rintro rfl
        exact absurd hc (by decide)
      have hescape : c ≠ '\\' := by
        rintro rfl
        exact absurd hc (by decide)
      rw [hc]
      exact (ih hcontents).plain hmark hescape
    · exact (ih hcontents).escaped '"'
    · exact (ih hcontents).escaped '\\'

/-! ### Texts of tokens -/

/-- In front of a blank a symbol does not go on. -/
theorem Symbol.length_le_of_prefix_append {s other : Symbol}
    (hrest : ∀ c ∈ rest.head?, isBlank c = true)
    (h : other.text.toList <+: s.text.toList ++ rest) : other.text.length ≤ s.text.length := by
  rw [← Nat.not_lt]
  intro hlonger
  rw [← String.length_toList, ← String.length_toList] at hlonger
  have hs := List.prefix_of_prefix_length_le (List.prefix_append _ rest) h (Nat.le_of_lt hlonger)
  obtain ⟨more, hmore⟩ := hs
  rw [← hmore, List.prefix_append_right_inj] at h
  cases more with
  | nil =>
    rw [← hmore, List.append_nil] at hlonger
    exact absurd hlonger (Nat.lt_irrefl _)
  | cons c more =>
    -- the longer symbol holds the blank
    obtain ⟨tail, rfl⟩ := h
    have hblank := hrest c (by simp)
    have hc : c ∈ other.text.toList := by
      rw [← hmore]
      simp
    exact absurd ((kinds_of_mem_symbol hc).1.symm.trans hblank) (by decide)

/-- A token is spelt as its text in front of a blank, and at the end. -/
theorem Token.spelt_text (hword : t.HasWord) (hshows : t.ShowsContents)
    (hrest : ∀ c ∈ rest.head?, isBlank c = true) : t.Spelt t.text.toList rest := by
  have hstop : rest.head?.any isNameChar = false := by
    cases rest with
    | nil => rfl
    | cons c rest =>
      have hblank : isBlank c = true := hrest c rfl
      rw [← Bool.not_eq_true]
      intro hname
      exact absurd ((isBlank_eq_false_of_isNameChar hname).symm.trans hblank) (by decide)
  cases t with
  | number word =>
    have hname := fun c hc => isNameChar_of_isDigit_or_dot (hword.2 c hc)
    have h := Token.Spelt.word hword.1 hname hstop
    rwa [hword.ofWord_number] at h
  | ident name =>
    have h := Token.Spelt.word hword.1 hword.2.1 hstop
    rwa [hword.ofWord_ident] at h
  | str contents =>
    have hmark : isQuote '"' = true := rfl
    have h := @Token.Spelt.str '"' _ _ rest hmark (quotedAs_flatMap_quoteChar hshows)
    rw [String.ofList_toList] at h
    rwa [Token.text, Text.quote, String.toList_ofList]
  | symbol s => exact .symbol fun other => Symbol.length_le_of_prefix_append hrest

theorem readAs_textAll (h : ∀ t ∈ ts, t.HasWord ∧ t.ShowsContents) :
    ReadAs (Token.textAll ts).toList ts := by
  rw [Token.textAll, String.toList_intercalate]
  induction ts with
  | nil => exact .nil
  | cons t ts ih =>
    obtain ⟨⟨hword, hshows⟩, hts⟩ := List.forall_mem_cons.mp h
    cases ts with
    | nil =>
      have ht : t.Spelt t.text.toList [] := Token.spelt_text hword hshows (by simp)
      simpa using ReadAs.token ht .nil
    | cons u ts =>
      have hrest := ReadAs.blank (c := ' ') rfl (ih hts)
      have hspace : ∀ c ∈ (' ' :: " ".toList.intercalate
          (((u :: ts).map Token.text).map String.toList)).head?, isBlank c = true := by
        rintro c ⟨⟩
        rfl
      have hread := ReadAs.token (Token.spelt_text hword hshows hspace) hrest
      rw [List.map_cons, List.map_cons, List.map_cons, List.map_cons, List.intercalate_cons_cons,
        List.append_assoc]
      exact hread

/-- **Tokens that are shown as text are read back**, and the tokens of every text have words. -/
theorem tokenize_text_and_hasWord :
    (∀ ts, (∀ t ∈ ts, t.HasWord ∧ t.ShowsContents) →
      tokenize (Malformed.slice ts).text = .ok ts) ∧
    ∀ text ts, tokenize text = .ok ts → ∀ t ∈ ts, t.HasWord :=
  ⟨fun _ h => tokenize_eq_ok_iff_readAs.mpr (readAs_textAll h),
    fun _ _ h => (readAs_of_tokenize h).hasWord⟩

/-- What a message shows of these tokens is `"\"'\\" - x.1 1..2`. -/
theorem tokenize_text_and_hasWord_of_quote :
    let ts : List Token := [.str "\"'\\", .symbol (.operator (.arithmetic .subtract)), .ident "x.1",
      .number "1..2"]
    tokenize (Malformed.slice ts).text = .ok ts ∧ ∀ t ∈ ts, t.HasWord := by
  intro ts
  obtain ⟨hread, hword⟩ := tokenize_text_and_hasWord
  have hshows : (Token.str "\"'\\").ShowsContents := by
    have hcontents : "\"'\\".toList = ['"', '\'', '\\'] := rfl
    have hplain : quoteChar '"' '\'' = ['\''] := rfl
    simp [Token.ShowsContents, hcontents, hplain]
  have hident : (Token.ident "x.1").HasWord :=
    @Token.hasWord_ofWord ['x', '.', '1'] (List.cons_ne_nil _ _) (List.all_eq_true.mp rfl)
  have hnumber : (Token.number "1..2").HasWord :=
    @Token.hasWord_ofWord ['1', '.', '.', '2'] (List.cons_ne_nil _ _) (List.all_eq_true.mp rfl)
  have hts : ∀ t ∈ ts, t.HasWord ∧ t.ShowsContents := by
    intro t ht
    simp only [ts, List.mem_cons, List.not_mem_nil, or_false] at ht
    obtain rfl | rfl | rfl | rfl := ht
    · exact ⟨trivial, hshows⟩
    · exact ⟨trivial, trivial⟩
    · exact ⟨hident, trivial⟩
    · exact ⟨hnumber, trivial⟩
  exact ⟨hread ts hts, hword (Malformed.slice ts).text ts (hread ts hts)⟩

end RuleConditions
