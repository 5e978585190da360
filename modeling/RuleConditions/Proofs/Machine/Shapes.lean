import RuleConditions.Proofs.Arguments
import RuleConditions.Proofs.Machine.Basic
import RuleConditions.Shape

/-!
# Shapes on the machine

The shape of a slice as it is found with positions: a scan counts brackets with a sign and stops at
the position of an operator, and the parts of the slice are cut out between positions.  What is
found is the shape that the slice has (`gives_shape`), and the arguments of a call are those that it
has (`gives_argumentsIn`).  For fewer tokens than `counterBound` no check fails; for more, none but
that of a counter of brackets with a sign.

The tests of a rule are made one after the other, and each is made only where those before it hold.
So the first token is looked up only where there is one, and what stands between two brackets is cut
out only where the closing one stands behind the opening one.
-/

namespace RuleConditions.Machine

open Cut (Search)

variable {ts front rest : List Token} {t : Token}

/-! ### Scans for an operator -/

/-- Whether the token at a position stands behind something that can end an operand. -/
def behindOperand (ts : List Token) (i : Nat) : Machine Bool :=
  if 0 < i then do
    let before ← lookUp ts (← predecessor i)
    return before.endsOperand
  else return false

/-- Whether a search accepts the token `t` at position `i`, where `level` brackets are open. -/
def accepts (s : Search) (ts : List Token) (i : Nat) (level : Int) (t : Token) : Machine Bool :=
  match t with
  | .symbol (.operator op) =>
    if s.wanted op && (!s.outermost || level == 0) then
      if op.isSum then behindOperand ts i else return true
    else return false
  | _ => return false

/-- The position of the operator that a search settles on.  The scan has come to position `i`, from
where on the tokens `rest` stand; `level` brackets are open there, and `found` is the last position
that was accepted. -/
def scan (s : Search) (side : Side) (ts : List Token) :
    (rest : List Token) → (i : Nat) → (level : Int) → (found : Option Nat) → Machine (Option Nat)
  | [], _, _, found => return found
  | t :: rest, i, level, found => do
    let levelBehind ← signed (level + t.nestingChange)
    if ← accepts s ts i level t then
      match side with
      | .first => return some i
      | .last => scan s side ts rest (i + 1) levelBehind (some i)
    else scan s side ts rest (i + 1) levelBehind found

/-- The position of the operator that is applied last. -/
def splitPosition (p : Precedence) (ts : List Token) : Machine (Option Nat) :=
  p.levels.findSomeM? fun level => scan ⟨level.holds, p.mindsBrackets⟩ level.side ts ts 0 0 none

theorem natAbs_nesting_le (ts : List Token) : (nesting ts).natAbs ≤ ts.length := by
  induction ts with
  | nil => exact Nat.le_refl 0
  | cons t ts ih =>
    have hchange : t.nestingChange.natAbs ≤ 1 := by
      obtain ⟨b, rfl⟩ | ⟨b, rfl⟩ | h := t.bracket_cases
      · exact Nat.le_refl 1
      · exact Nat.le_refl 1
      · rw [h]
        exact Nat.zero_le 1
    rw [nesting_cons, List.length_cons]
    omega

theorem behindOperand_eq (hts : front ++ t :: rest = ts) :
    behindOperand ts front.length = pure (front.getLast?.any Token.endsOperand) := by
  obtain rfl | ⟨before, b, rfl⟩ := List.eq_nil_or_concat front
  · rfl
  · rw [List.concat_eq_append] at hts ⊢
    have hb : lookUp ts before.length = pure b := by
      rw [← hts, List.append_assoc]
      exact lookUp_append before (t :: rest) b
    rw [behindOperand, List.length_append, List.length_singleton, if_pos (Nat.succ_pos _),
      predecessor, pure_bind, hb, pure_bind, List.getLast?_concat]
    rfl

theorem accepts_eq (s : Search) (hts : front ++ t :: rest = ts) (level : Int) :
    accepts s ts front.length level t = pure (s.hit? level front.getLast? t).isSome := by
  cases t with
  | number | ident | str => rfl
  | symbol symbol =>
    cases symbol with
    | bang | opening | closing | comma => rfl
    | operator op =>
      rw [accepts, behindOperand_eq hts, Search.hit?, Token.binary?]
      cases hwanted : s.wanted op && (!s.outermost || level == 0) <;> cases op.isSum <;>
        cases front.getLast?.any Token.endsOperand <;> simp [Option.filter, hwanted]

/-- Behind each token of a short list the number of open brackets fits its counter. -/
theorem gives_signed_nesting (hts : front ++ t :: rest = ts) :
    Gives (IsShort ts) (signed (nesting front + t.nestingChange)) (nesting (front ++ [t])) := by
  have hnesting : nesting (front ++ [t]) = nesting front + t.nestingChange := by simp
  have hle := natAbs_nesting_le (front ++ [t])
  have hlength := congrArg List.length hts
  rw [List.length_append, List.length_cons] at hlength
  rw [List.length_append, List.length_singleton] at hle
  rw [← hnesting]
  exact gives_signed fun hshort => by
    unfold IsShort at hshort
    omega

/-- A scan for the first operator comes to the first cut. -/
theorem gives_scan_first (s : Search) (hts : front ++ rest = ts) :
    Gives (IsShort ts) (scan s .first ts rest front.length (nesting front) none)
      ((Cut.first? s (nesting front) front.getLast? rest).map (front.length + ·.left.length)) := by
  induction rest generalizing front with
  | nil => exact .inl rfl
  | cons t rest ih =>
    have hnext := @ih (front ++ [t]) (by rwa [List.append_assoc])
    have hnesting : nesting (front ++ [t]) = nesting front + t.nestingChange := by simp
    simp only [List.length_append, List.length_singleton, List.getLast?_concat, hnesting] at hnext
    rw [scan]
    refine (gives_signed_nesting hts).bind ?_
    rw [accepts_eq s hts, pure_bind, Cut.first?, hnesting]
    cases s.hit? (nesting front) front.getLast? t with
    | some op => exact .inl (by simp)
    | none => simpa [Function.comp_def, Cut.cons, Nat.add_assoc, Nat.add_comm 1] using hnext

/-- A scan for the last operator comes to the last cut, if there is one. -/
theorem gives_scan_last (s : Search) (hts : front ++ rest = ts) (found : Option Nat) :
    Gives (IsShort ts) (scan s .last ts rest front.length (nesting front) found)
      (((Cut.last? s (nesting front) front.getLast? rest).map
        (front.length + ·.left.length)).or found) := by
  induction rest generalizing front found with
  | nil => exact .inl rfl
  | cons t rest ih =>
    have hnext := @ih (front ++ [t]) (by rwa [List.append_assoc])
    have hnesting : nesting (front ++ [t]) = nesting front + t.nestingChange := by simp
    simp only [List.length_append, List.length_singleton, List.getLast?_concat, hnesting] at hnext
    rw [scan]
    refine (gives_signed_nesting hts).bind ?_
    rw [accepts_eq s hts, pure_bind, Cut.last?, hnesting]
    have hhere := hnext (some front.length)
    have hthere := hnext found
    cases s.hit? (nesting front) front.getLast? t <;>
      cases hlast : Cut.last? s (nesting front + t.nestingChange) (some t) rest <;>
        simp_all [Cut.cons, Nat.add_assoc, Nat.add_comm 1]

/-- **The position of a split** is that of the cut. -/
theorem gives_splitPosition (p : Precedence) (ts : List Token) :
    Gives (IsShort ts) (splitPosition p ts) ((Cut.find? p ts).map (·.left.length)) := by
  have hscan : ∀ level ∈ p.levels,
      Gives (IsShort ts) (scan ⟨level.holds, p.mindsBrackets⟩ level.side ts ts 0 0 none)
        ((Cut.at? p.mindsBrackets level ts).map (·.left.length)) := by
    intro level _
    rw [Cut.at?]
    cases level.side with
    | first => simpa using @gives_scan_first ts [] ts ⟨level.holds, p.mindsBrackets⟩ rfl
    | last => simpa using @gives_scan_last ts [] ts ⟨level.holds, p.mindsBrackets⟩ rfl none
  rw [splitPosition, Cut.find?, List.map_findSome?]
  exact Gives.findSomeM? hscan

/-! ### Brackets around a slice -/

/-- Whether the closing bracket that leaves none open is the last token.  The scan has come to
position `i`, from where on the tokens `rest` stand, and `level` brackets are open there. -/
def closes (ts : List Token) : (rest : List Token) → (i level : Nat) → Machine Bool
  | [], _, _ => return false
  | .symbol (.opening _) :: rest, i, level => do
    closes ts rest (i + 1) (← counted ts (level + 1))
  | .symbol (.closing _) :: rest, i, level =>
    -- where none is open, none is open afterwards
    if level - 1 = 0 then return i == (← predecessor ts.length)
    else closes ts rest (i + 1) (level - 1)
  | _ :: rest, i, level => closes ts rest (i + 1) level

/-- Whether the bracket at a position is closed by the last token.  Where brackets do not matter,
they are not counted. -/
def encloses (p : Precedence) (ts : List Token) (start : Nat) : Machine Bool :=
  if p.mindsBrackets then closes ts (ts.drop start) start 0 else return true

/-- Whether a symbol stands at a position. -/
def isAt (ts : List Token) (i : Nat) (s : Symbol) : Machine Bool :=
  return (← lookUp ts i) = .symbol s

/-- Whether a bracket at one position is closed at another, which is that of the last token. -/
def surrounds (p : Precedence) (b : Bracket) (ts : List Token) (start last : Nat) : Machine Bool :=
  isAt ts start (.opening b) <&&> isAt ts last (.closing b) <&&> encloses p ts start

/-- Of the tokens behind the scan, `inner + 1` have opened a bracket that is open. -/
theorem closes_eq (hts : front ++ rest = ts) {inner : Nat} (hinner : inner < front.length) :
    closes ts rest front.length (inner + 1) = pure (closesAtEnd inner rest) := by
  induction rest generalizing front inner with
  | nil => rfl
  | cons t rest ih =>
    have hlength := congrArg List.length hts
    rw [List.length_append, List.length_cons] at hlength
    have hnext : ∀ inner ≤ front.length,
        closes ts rest (front.length + 1) (inner + 1) = pure (closesAtEnd inner rest) := by
      intro inner hinner
      have h := @ih (front ++ [t]) (by rwa [List.append_assoc]) inner
      rw [List.length_append, List.length_singleton] at h
      exact h (Nat.lt_succ_of_le hinner)
    rcases t with _ | _ | _ | (_ | _ | b | b | _)
    case symbol.opening =>
      have hlevel : counted ts (inner + 1 + 1) = pure (inner + 1 + 1) := counted_eq (by omega)
      rw [closes, hlevel, pure_bind, closesAtEnd]
      exact hnext (inner + 1) hinner
    case symbol.closing =>
      cases inner with
      | zero =>
        have hlast : predecessor ts.length = pure (front.length + rest.length) := by
          rw [← hlength, ← Nat.add_assoc, predecessor]
        have hempty : (front.length == front.length + rest.length) = rest.isEmpty := by
          cases rest <;> simp
        rw [closes, if_pos rfl, hlast, pure_bind, hempty, closesAtEnd]
      | succ inner =>
        have hopen : ¬inner + 1 + 1 - 1 = 0 := by omega
        rw [closes, if_neg hopen, Nat.add_sub_cancel, closesAtEnd]
        exact hnext inner (by omega)
    all_goals
      have h := hnext inner (by omega)
      cases inner <;> exact h

theorem encloses_eq (p : Precedence) {b : Bracket}
    (hts : front ++ .symbol (.opening b) :: rest = ts) :
    encloses p ts front.length = pure (!p.mindsBrackets || closesAtEnd 0 rest) := by
  rw [encloses]
  cases p.mindsBrackets with
  | false => rfl
  | true =>
    have hdrop : ts.drop front.length = .symbol (.opening b) :: rest := by
      rw [← hts, List.drop_left]
    have hfirst : counted ts (0 + 1) = pure 1 := counted_eq (by simp [← hts]; omega)
    have hnext := @closes_eq ts (front ++ [.symbol (.opening b)]) rest
      (by rwa [List.append_assoc]) 0 (by simp)
    rw [List.length_append, List.length_singleton] at hnext
    rw [if_pos rfl, hdrop, closes, hfirst, pure_bind]
    exact hnext

theorem pure_andM (a : Bool) (x : Machine Bool) :
    (pure a <&&> x : Machine Bool) = if a then x else pure false := by
  cases a <;> rfl

/-- Behind an opening bracket, the last token of the slice is that of what follows. -/
theorem isAt_last_eq {b : Bracket} (hts : front ++ .symbol (.opening b) :: rest = ts) :
    isAt ts (ts.length - 1) (.closing b) =
      pure (decide (rest.getLast? = some (.symbol (.closing b)))) := by
  have hlast : ts[ts.length - 1]? = some (rest.getLast?.getD (.symbol (.opening b))) := by
    rw [← List.getLast?_eq_getElem?, ← hts, List.getLast?_append, List.getLast?_cons]
    rfl
  rw [isAt, lookUp_eq hlast, pure_bind]
  cases rest.getLast? <;> simp

/-- What the machine finds to be surrounded is enclosed. -/
theorem surrounds_eq (p : Precedence) (b : Bracket) (hts : front ++ t :: rest = ts) :
    surrounds p b ts front.length (ts.length - 1) =
      pure (decide (t = .symbol (.opening b)) && (enclosed? p b rest).isSome) := by
  have hfirst : isAt ts front.length (.opening b) = pure (decide (t = .symbol (.opening b))) := by
    rw [isAt, ← hts, lookUp_append, pure_bind]
  rw [surrounds, hfirst, pure_andM]
  by_cases hopen : t = .symbol (.opening b)
  · rw [if_pos (decide_eq_true hopen), decide_eq_true hopen, Bool.true_and]
    subst hopen
    rw [isAt_last_eq hts, pure_andM, encloses_eq p hts, enclosed?]
    cases decide (rest.getLast? = some (.symbol (.closing b))) <;>
      cases !p.mindsBrackets || closesAtEnd 0 rest <;> rfl
  · rw [decide_eq_false hopen]
    rfl

/-! ### Shapes -/

/-- What stands between the bracket at one position and its partner at another. -/
def interior? (p : Precedence) (b : Bracket) (ts : List Token) (start last : Nat) :
    Machine (Option (List Token)) := do
  if ← surrounds p b ts start last then return some (← between ts (start + 1) last)
  else return none

/-- What the brackets around everything behind the first token enclose. -/
def interiorBehind? (p : Precedence) (b : Bracket) (ts : List Token) (last : Nat) :
    Machine (Option (List Token)) :=
  if 3 ≤ ts.length then interior? p b ts 1 last else return none

/-- The shape of a slice that ends with the partner of its first bracket.  At position `last` stands
the last token. -/
def bracketed (p : Precedence) (ts : List Token) (last : Nat) : Machine (Option Shape) := do
  if let some interior ← interior? p .round ts 0 last then return some (.group interior)
  match ← lookUp ts 0 with
  | .ident name =>
    if let some interior ← interiorBehind? p .round ts last then
      return some (.call name interior)
    if let some position ← interiorBehind? p .square ts last then
      return some (.index name position)
    return none
  | _ => return none

/-- The shape of a slice with no operator to cut it at and no brackets around it. -/
def simple (ts : List Token) : Machine Shape := do
  match ← lookUp ts 0 with
  | .symbol .bang => return .not (← between ts 1 ts.length)
  | .symbol (.operator (.arithmetic .subtract)) => return .negative (← between ts 1 ts.length)
  | t => return if ts.length = 1 then .single t else .unreadable ts

/-- The shape of a slice. -/
def shape (p : Precedence) (ts : List Token) : Machine Shape := do
  if ts.isEmpty then return .empty
  match ← splitPosition p ts with
  | some i =>
    match ← lookUp ts i with
    | .symbol (.operator op) =>
      return .binary (← between ts 0 i) op (← between ts (i + 1) ts.length)
    | _ => return .unreadable ts
  | none =>
    match ← bracketed p ts (← predecessor ts.length) with
    | some s => return s
    | none => simple ts

theorem interior?_eq (p : Precedence) (b : Bracket) (hts : front ++ t :: rest = ts) :
    interior? p b ts front.length (ts.length - 1) =
      pure (if t = .symbol (.opening b) then enclosed? p b rest else none) := by
  rw [interior?, surrounds_eq p b hts, pure_bind]
  by_cases hopen : t = .symbol (.opening b)
  · rw [decide_eq_true hopen, Bool.true_and, if_pos hopen]
    cases hinterior : enclosed? p b rest with
    | none => rfl
    | some interior =>
      -- the last position is that of the closing bracket
      have hitems : (front ++ [t]) ++ interior ++ [.symbol (.closing b)] = ts := by
        rw [List.append_assoc, Shape.append_of_enclosed? hinterior, List.append_assoc,
          List.singleton_append, hts]
      have hbetween : between ts (front.length + 1) (ts.length - 1) = pure interior := by
        refine between_eq _ _ _ hitems (by simp) ?_
        rw [← hitems, List.length_append, List.length_append, List.length_singleton,
          Nat.add_sub_cancel]
      rw [Option.isSome_some, if_pos rfl, hbetween, pure_bind]
  · rw [decide_eq_false hopen, if_neg hopen]
    rfl

theorem interiorBehind?_eq (p : Precedence) (b : Bracket) (t u : Token) (ts : List Token) :
    interiorBehind? p b (t :: u :: ts) ((t :: u :: ts).length - 1) =
      pure (if u = .symbol (.opening b) then enclosed? p b ts else none) := by
  have hinterior := @interior?_eq (t :: u :: ts) [t] ts u p b rfl
  cases ts with
  | nil =>
    have hnone : (if u = .symbol (.opening b) then enclosed? p b [] else none) = none :=
      ite_self none
    rw [hnone]
    rfl
  | cons v ts =>
    have hlong : 3 ≤ (t :: u :: v :: ts).length := by simp
    rw [interiorBehind?, if_pos hlong]
    exact hinterior

theorem bracketed_eq (p : Precedence) (t : Token) (ts : List Token) :
    bracketed p (t :: ts) ((t :: ts).length - 1) = pure (Shape.bracketed? p t ts) := by
  have hround := @interior?_eq (t :: ts) [] ts t p .round rfl
  rw [List.length_nil] at hround
  rw [bracketed, hround, pure_bind]
  rcases t with _ | name | _ | (_ | _ | (_ | _) | _ | _)
  case symbol.opening.round =>
    rw [if_pos rfl, Shape.bracketed?]
    cases enclosed? p .round ts <;> rfl
  case ident =>
    have hname : Token.ident name ≠ .symbol (.opening .round) := nofun
    have hfirst : lookUp (.ident name :: ts) 0 = pure (.ident name) := rfl
    rw [if_neg hname, hfirst, pure_bind]
    cases ts with
    | nil => rfl
    | cons u ts =>
      simp only [interiorBehind?_eq, pure_bind]
      rcases u with _ | _ | _ | (_ | _ | (_ | _) | _ | _)
      case symbol.opening.round =>
        rw [if_pos rfl, Shape.bracketed?]
        cases enclosed? p .round ts <;> rfl
      case symbol.opening.square =>
        have hkind : Token.symbol (.opening .square) ≠ .symbol (.opening .round) := by decide
        rw [if_neg hkind, if_pos rfl, Shape.bracketed?]
        cases enclosed? p .square ts <;> rfl
      all_goals rfl
  all_goals rfl

theorem simple_eq (t : Token) (ts : List Token) : simple (t :: ts) = pure (Shape.simple t ts) := by
  have hfirst : lookUp (t :: ts) 0 = pure t := rfl
  have hrest : between (t :: ts) 1 (t :: ts).length = pure ts :=
    between_eq [t] ts [] (by simp) rfl (by simp [Nat.add_comm])
  rw [simple, hfirst, pure_bind, hrest]
  rcases t with _ | _ | _ | ((_ | _ | (_ | _ | _ | _ | _)) | _ | _ | _ | _) <;> cases ts <;> rfl

/-- **The shape of a slice** is found, and no access to the slice fails. -/
theorem gives_shape (p : Precedence) (ts : List Token) :
    Gives (IsShort ts) (shape p ts) (Shape.read p ts) := by
  cases ts with
  | nil => exact .inl rfl
  | cons t ts =>
    have hempty : ¬(t :: ts).isEmpty = true := by simp
    rw [shape, if_neg hempty, Shape.read]
    refine (gives_splitPosition p (t :: ts)).bind ?_
    cases hfind : Cut.find? p (t :: ts) with
    | some cut =>
      have htokens := Cut.tokens_find? hfind
      rw [Cut.tokens] at htokens
      have hop : lookUp (t :: ts) cut.left.length = pure (.symbol (.operator cut.op)) := by
        rw [← htokens, lookUp_append]
      have hleft : between (t :: ts) 0 cut.left.length = pure cut.left :=
        between_eq [] cut.left _ htokens rfl (by simp)
      have hright : between (t :: ts) (cut.left.length + 1) (t :: ts).length = pure cut.right := by
        have hparts : (cut.left ++ [.symbol (.operator cut.op)]) ++ cut.right ++ [] = t :: ts := by
          simpa using htokens
        refine between_eq _ cut.right [] hparts (by simp) ?_
        rw [← hparts, List.append_nil, List.length_append]
      simp only [Option.map_some, hop, hleft, hright, pure_bind]
      exact .inl rfl
    | none =>
      have hlast : predecessor (t :: ts).length = pure ((t :: ts).length - 1) := rfl
      simp only [Option.map_none, hlast, pure_bind, bracketed_eq]
      cases Shape.bracketed? p t ts with
      | some s => exact .inl rfl
      | none => exact .inl (simple_eq t ts)

/-! ### Arguments -/

/-- Cuts arguments at commas outside brackets.  The argument that has come last starts at `start`,
the scan has come to position `i`, from where on the tokens `rest` stand, and `level` brackets are
open there. -/
def cutArguments (ts : List Token) :
    (rest : List Token) → (i start : Nat) → (level : Int) → (args : List (List Token)) →
      Machine (List (List Token))
  | [], _, start, _, args => return args ++ [← between ts start ts.length]
  | t :: rest, i, start, level, args => do
    if t = .symbol .comma ∧ level = 0 then
      let arg ← between ts start i
      cutArguments ts rest (i + 1) (i + 1) level (args ++ [arg])
    else
      cutArguments ts rest (i + 1) start (← signed (level + t.nestingChange)) args

/-- The arguments between the brackets of a call. -/
def argumentsIn (ts : List Token) : Machine (List (List Token)) :=
  if ts.isEmpty then return [] else cutArguments ts ts 0 0 0 []

/-- The scan has the tokens `front` behind it, up to the last comma, and then those of `arg`. -/
theorem gives_cutArguments {arg : List Token} (hts : front ++ arg ++ rest = ts)
    (args : List (List Token)) :
    Gives (IsShort ts)
      (cutArguments ts rest (front.length + arg.length) front.length (nesting (front ++ arg)) args)
      (args ++ (arg ++ (splitCommas (nesting (front ++ arg)) rest).1) ::
        (splitCommas (nesting (front ++ arg)) rest).2) := by
  induction rest generalizing front arg args with
  | nil =>
    have harg : between ts front.length ts.length = pure arg := by
      refine between_eq front arg [] hts rfl ?_
      rw [← hts, List.append_nil, List.length_append]
    rw [cutArguments, harg, splitCommas, List.append_nil]
    exact .inl rfl
  | cons t rest ih =>
    rw [cutArguments, splitCommas]
    by_cases hcomma : t = .symbol .comma ∧ nesting (front ++ arg) = 0
    · have harg : between ts front.length (front.length + arg.length) = pure arg :=
        between_eq front arg (t :: rest) hts rfl rfl
      have hnext := @ih (front ++ arg ++ [t]) [] (by simpa using hts) (args ++ [arg])
      have hnesting : nesting (front ++ arg ++ [t] ++ []) = nesting (front ++ arg) := by
        simp [hcomma.1, Token.nestingChange]
      rw [hnesting] at hnext
      simp only [List.length_append, List.length_singleton, List.length_nil, Nat.add_zero] at hnext
      rw [if_pos hcomma, harg, pure_bind, if_pos hcomma]
      simpa [hcomma.1, Token.nestingChange] using hnext
    · have hnesting : nesting (front ++ arg ++ [t]) = nesting (front ++ arg) + t.nestingChange := by
        simp [Int.add_assoc]
      have hnext := @ih front (arg ++ [t]) (by simpa using hts) args
      rw [← List.append_assoc front, hnesting] at hnext
      simp only [List.length_append, List.length_singleton, ← Nat.add_assoc] at hnext
      rw [if_neg hcomma, if_neg hcomma]
      refine (gives_signed_nesting hts).bind ?_
      rw [hnesting]
      simpa using hnext

/-- **The arguments of a call** are cut out, and no access to the slice fails. -/
theorem gives_argumentsIn (ts : List Token) :
    Gives (IsShort ts) (argumentsIn ts) (arguments ts) := by
  cases ts with
  | nil => exact .inl rfl
  | cons t ts => exact @gives_cutArguments (t :: ts) [] (t :: ts) [] rfl []

end RuleConditions.Machine
