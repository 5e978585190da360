import RuleConditions.Proofs.Lexemes
import RuleConditions.Proofs.Patterns

/-!
# Names that the denylist keeps out

The denylist looks at a text, tokens are read from the same text, and neither knows of the other.
The words of the denylist end at a dot, and names do not, so what the denylist says of words holds
of the `segments` of a name.  A segment has no word character beside it (`exists_segment`), hence a
denied word that is the segment of a name is found in the text; and between the last segment of a
name and the next token there are only blanks (`exists_last_segment`), hence a denied call is found,
however far its bracket is away.
-/

namespace RuleConditions

open Text (isBlank isWord)

/-! ### Segments -/

/-- The parts of a name between its dots. -/
def segments (name : String) : List String := (name.toList.splitOn '.').map String.ofList

variable {name segment w : String}

theorem isWord_of_mem_segment (hchars : ∀ c ∈ name.toList, isNameChar c = true)
    {part : List Char} (hpart : part ∈ name.toList.splitOn '.') : ∀ c ∈ part, isWord c = true := by
  obtain ⟨front, back, hname, -⟩ := exists_append_of_mem_splitOn hpart
  intro c hc
  refine isWord_of_isNameChar (hchars c (by simp [hname, hc])) ?_
  rintro rfl
  exact not_mem_of_mem_splitOn hpart hc

theorem any_isWord_eq_false_of_dots {d : Option Char} (h : ∀ c ∈ d, c = '.') :
    d.any isWord = false := by
  cases d with
  | none => rfl
  | some c => rw [h c rfl]; decide

/-! ### Segments in a text -/

section Reading

variable {text : List Char} {ts before after : List Token}

/-- In a text that can be read, the segment of a name has no word character beside it. -/
theorem exists_segment (h : ReadAs text ts) (hname : Token.ident name ∈ ts)
    (hsegment : segment ∈ segments name) :
    ∃ front rest, text = front ++ segment.toList ++ rest ∧
      (∀ c ∈ segment.toList, isWord c = true) ∧
      front.getLast?.any isWord = false ∧ rest.head?.any isWord = false := by
  obtain ⟨pre, post, rfl⟩ := List.append_of_mem hname
  obtain ⟨front, rest, rfl, hfront, hrest, hchars, -⟩ := h.exists_name
  obtain ⟨part, hpart, rfl⟩ := List.mem_map.mp hsegment
  have hword := isWord_of_mem_segment hchars hpart
  obtain ⟨left, right, hparts, hleft, hright⟩ := exists_append_of_mem_splitOn hpart
  rw [String.toList_ofList]
  refine ⟨front ++ left, right ++ rest, by simp [hparts], hword, ?_, ?_⟩
  · rw [List.getLast?_append]
    exact any_or_eq_false (any_isWord_eq_false_of_dots hleft) hfront
  · rw [List.head?_append]
    exact any_or_eq_false (any_isWord_eq_false_of_dots hright) hrest

/-- Behind the last segment of a name the other tokens are read. -/
theorem exists_last_segment (h : ReadAs text (before ++ .ident name :: after))
    (hsegment : segment ∈ (segments name).getLast?) :
    ∃ front rest, text = front ++ segment.toList ++ rest ∧
      (∀ c ∈ segment.toList, isWord c = true) ∧ front.getLast?.any isWord = false ∧
      rest.head?.any isNameChar = false ∧ ReadAs rest after := by
  obtain ⟨front, rest, rfl, hfront, -, hchars, hrest, hafter⟩ := h.exists_name
  rw [segments, List.getLast?_map, Option.mem_def, Option.map_eq_some_iff] at hsegment
  obtain ⟨part, hpart, rfl⟩ := hsegment
  have hword := isWord_of_mem_segment hchars (List.mem_of_getLast? hpart)
  obtain ⟨left, hparts, hleft⟩ := exists_append_of_getLast?_splitOn hpart
  rw [String.toList_ofList]
  refine ⟨front ++ left, rest, by simp [hparts], hword, ?_, hrest, hafter⟩
  rw [List.getLast?_append]
  exact any_or_eq_false (any_isWord_eq_false_of_dots hleft) hfront

/-- Where a bracket is the next token, blanks and the bracket are next in the text. -/
theorem exists_opening (h : ReadAs text (.symbol (.opening .round) :: ts)) :
    ∃ blanks rest, text = blanks ++ '(' :: rest ∧ ∀ c ∈ blanks, isBlank c = true := by
  obtain ⟨blanks, spelling, rest, rfl, hblanks, hspelt, -⟩ := h.exists_blanks separate_none
  have := hspelt.of_symbol
  exact ⟨blanks, rest, by simp [this, Symbol.text], hblanks⟩

/-- Where a name is the next token but does not start here, blanks and the name are next in the
text. -/
theorem exists_blanks_name (h : ReadAs text (.ident name :: ts))
    (hstart : text.head?.any isNameChar = false) :
    ∃ blanks rest, text = blanks ++ name.toList ++ rest ∧ (∀ c ∈ blanks, isBlank c = true) ∧
      blanks ≠ [] ∧ ∀ c ∈ name.toList, isNameChar c = true := by
  obtain ⟨blanks, spelling, rest, rfl, hblanks, hspelt, -⟩ := h.exists_blanks separate_none
  obtain ⟨c, tail, hspelling, -⟩ := hspelt.exists_eq_cons
  obtain ⟨rfl, hchars, -⟩ := hspelt.of_ident
  refine ⟨blanks, rest, rfl, hblanks, ?_, hchars⟩
  rintro rfl
  have hc := hchars c (by rw [hspelling]; exact List.mem_cons_self ..)
  rw [List.nil_append, hspelling, List.cons_append] at hstart
  exact absurd (hc.symm.trans hstart) (by decide)

end Reading

/-! ### What is kept out -/

/-- Words that no segment of a name may be. -/
def deniedWords : List String :=
  ["import", "process", "global", "globalThis", "window", "document", "setTimeout", "setInterval",
    "setImmediate", "function", "class", "constructor", "prototype"]

/-- Words that no segment of a name may be in any case. -/
def deniedWordsAnyCase : List String := ["XMLHttpRequest", "WebSocket", "socket"]

/-- Words that the last segment of a called name may not be. -/
def deniedCalls : List String := ["eval", "Function", "require", "fetch", "for", "while"]

theorem word_mem_denyRules : ∀ w ∈ deniedWords, Pattern.word w ∈ denyRules.map (·.pattern) := by
  simp [deniedWords, denyRules]

theorem wordAnyCase_mem_denyRules :
    ∀ w ∈ deniedWordsAnyCase, Pattern.wordAnyCase w ∈ denyRules.map (·.pattern) := by
  simp [deniedWordsAnyCase, denyRules]

theorem wordThen_mem_denyRules :
    ∀ w ∈ deniedCalls, Pattern.wordThen w '(' ∈ denyRules.map (·.pattern) := by
  simp [deniedCalls, denyRules]

section Screened

variable {o : Options} {text : String} {ts before after : List Token}

theorem not_mem_deniedWords (hscreen : o.screen text = .ok ()) (h : ReadAs text.toList ts)
    (hname : .ident name ∈ ts) (hsegment : segment ∈ segments name) : segment ∉ deniedWords := by
  intro hdenied
  obtain ⟨front, rest, htext, hchars, hfront, hrest⟩ := exists_segment h hname hsegment
  have hne : ∀ w ∈ deniedWords, w.toList ≠ [] := by decide
  have hoccurs := Pattern.occurs_word hchars (hne segment hdenied) hfront hrest
  exact Options.toList_ne_of_occurs hscreen (word_mem_denyRules segment hdenied) hoccurs htext

theorem toLower_ne_of_mem_deniedWordsAnyCase (hscreen : o.screen text = .ok ())
    (h : ReadAs text.toList ts) (hname : .ident name ∈ ts) (hsegment : segment ∈ segments name)
    (hw : w ∈ deniedWordsAnyCase) : segment.toLower ≠ w.toLower := by
  intro hlower
  obtain ⟨front, rest, htext, hchars, hfront, hrest⟩ := exists_segment h hname hsegment
  have hword : segment.toList.map Char.toLower = w.toList.map Char.toLower := by
    rw [← String.toList_map, ← String.toList_map]
    exact congrArg String.toList hlower
  have hne : segment.toList ≠ [] := by
    have hlower : ∀ w ∈ deniedWordsAnyCase, w.toList.map Char.toLower ≠ [] := by decide
    intro hnil
    rw [hnil] at hword
    exact hlower w hw hword.symm
  have hoccurs := Pattern.occurs_wordAnyCase hword hchars hne hfront hrest
  exact Options.toList_ne_of_occurs hscreen (wordAnyCase_mem_denyRules w hw) hoccurs htext

theorem not_infix_of_screen (hscreen : o.screen text = .ok ()) (h : ReadAs text.toList ts)
    (hname : .ident name ∈ ts) : ¬ "__proto__".toList <:+: name.toList := by
  rintro ⟨left, right, hproto⟩
  obtain ⟨pre, post, rfl⟩ := List.append_of_mem hname
  obtain ⟨front, rest, htext, -⟩ := h.exists_name
  have hoccurs := Pattern.occurs_exactly "__proto__" (front ++ left) (right ++ rest)
  refine Options.toList_ne_of_occurs hscreen (by simp [denyRules]) hoccurs ?_
  simp [htext, ← hproto]

theorem not_mem_deniedCalls (hscreen : o.screen text = .ok ())
    (h : ReadAs text.toList (before ++ .ident name :: .symbol (.opening .round) :: after))
    (hsegment : segment ∈ (segments name).getLast?) : segment ∉ deniedCalls := by
  intro hdenied
  obtain ⟨front, rest, htext, hchars, hfront, -, hafter⟩ := exists_last_segment h hsegment
  obtain ⟨blanks, rest, rfl, hblanks⟩ := exists_opening hafter
  have hne : ∀ w ∈ deniedCalls, w.toList ≠ [] := by decide
  have hoccurs := Pattern.occurs_wordThen hchars (hne segment hdenied) hfront hblanks
    (by decide : isBlank '(' = false) rest
  exact Options.toList_ne_of_occurs hscreen (wordThen_mem_denyRules segment hdenied) hoccurs htext

theorem not_startsName_of_new {next : String} (hscreen : o.screen text = .ok ())
    (h : ReadAs text.toList (before ++ .ident name :: .ident next :: after))
    (hsegment : "new" ∈ (segments name).getLast?) {c : Char} (hc : c ∈ next.toList.head?) :
    Pattern.startsName c = false := by
  rw [← Bool.not_eq_true]
  intro hstarts
  obtain ⟨front, rest, htext, hchars, hfront, hrest, hafter⟩ := exists_last_segment h hsegment
  obtain ⟨blanks, rest, rfl, hblanks, hne, hnext⟩ := exists_blanks_name hafter hrest
  obtain ⟨tail, hcons⟩ := List.head?_eq_some_iff.mp hc
  have hmem : c ∈ next.toList := by
    rw [hcons]
    exact List.mem_cons_self ..
  have hblank := isBlank_eq_false_of_isNameChar (hnext c hmem)
  rw [hcons, List.append_assoc blanks, List.cons_append] at htext
  have hoccurs := Pattern.occurs_word_blanks hchars (by decide) hfront hblanks
    (List.length_pos_iff.mpr hne) hblank hstarts (tail ++ rest)
  exact Options.toList_ne_of_occurs hscreen (by simp [denyRules]) hoccurs htext

end Screened

/-- **The denylist keeps names out, however they are written.**  Whatever tokens are read from a
text that is let through, no segment of a name among them is a denied word and no name holds
`__proto__`; none that ends in a denied call is called; and none that ends in `new` stands in front
of a name that starts with a letter or an underscore. -/
theorem no_denied_name_of_screen {o : Options} {text : String} {ts : List Token}
    (hscreen : o.screen text = .ok ()) (htokens : tokenize text = .ok ts) :
    (∀ name, .ident name ∈ ts →
      (∀ segment ∈ segments name, segment ∉ deniedWords ∧
        ∀ w ∈ deniedWordsAnyCase, segment.toLower ≠ w.toLower) ∧
      ¬ "__proto__".toList <:+: name.toList) ∧
    (∀ before name after, ts = before ++ .ident name :: .symbol (.opening .round) :: after →
      ∀ segment ∈ (segments name).getLast?, segment ∉ deniedCalls) ∧
    ∀ before name next after, ts = before ++ .ident name :: .ident next :: after →
      "new" ∈ (segments name).getLast? → ∀ c ∈ next.toList.head?, c.isAlpha = false ∧ c ≠ '_' := by
  have hread := readAs_of_tokenize htokens
  refine ⟨fun name hname => ⟨fun segment hsegment => ⟨?_, fun w hw => ?_⟩, ?_⟩, ?_, ?_⟩
  · exact not_mem_deniedWords hscreen hread hname hsegment
  · exact toLower_ne_of_mem_deniedWordsAnyCase hscreen hread hname hsegment hw
  · exact not_infix_of_screen hscreen hread hname
  · rintro before name after rfl segment hsegment
    exact not_mem_deniedCalls hscreen hread hsegment
  · rintro before name next after rfl hsegment c hc
    have hstarts := not_startsName_of_new hscreen hread hsegment hc
    simp only [Pattern.startsName, Bool.or_eq_false_iff, beq_eq_false_iff_ne] at hstarts
    exact hstarts.1

theorem no_denied_name_of_screen_of_row :
    ({} : Options).screen "new.x new" = .ok () ∧
      tokenize "new.x new" = .ok [.ident "new.x", .ident "new"] ∧
      ∀ segment ∈ segments "new.x", segment ∉ deniedWords := by
  have hscreen : ({} : Options).screen "new.x new" = .ok () := rfl
  have hfirst : Lexeme.next 'n' "ew.x new".toList =
      .ok (.token (.ident "new.x"), " new".toList) := rfl
  have hblank : Lexeme.next ' ' "new".toList = .ok (.blank, "new".toList) := rfl
  have hlast : Lexeme.next 'n' "ew".toList = .ok (.token (.ident "new"), []) := rfl
  have htokens : tokenize "new.x new" = .ok [.ident "new.x", .ident "new"] :=
    tokensFrom_cons hfirst (tokensFrom_cons hblank (tokensFrom_cons hlast (tokensFrom_nil _)))
  have hnames := (no_denied_name_of_screen hscreen htokens).1 "new.x" (List.mem_cons_self ..)
  exact ⟨hscreen, htokens, fun segment hsegment => (hnames.1 segment hsegment).1⟩

end RuleConditions
