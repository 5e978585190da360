import RuleConditions.Text.Blank
import RuleConditions.Text.Word

/-!
# The denylist

Constructs of programming languages that have no place in a condition.  Each is described by a
`Pattern` over characters that may fit anywhere in a text.  The test knows nothing of tokens: it
also looks into strings.

Main definitions:

* `Pattern.fits`: whether a pattern fits at one place;
* `Pattern.occurs`: whether it fits at some place;
* `denyRules`: the rules in the order in which they are tried.
-/

namespace RuleConditions

open Text (isBlank isWord)

/-! ### Patterns -/

inductive Piece where
  /-- A place where a word starts or ends. -/
  | boundary
  /-- One character that passes the test. -/
  | one (test : Char → Bool)
  /-- All the blanks that stand here, and at least so many.  No pattern asks for a blank after
  them, so taking all of them loses nothing. -/
  | blanks (atLeast : Nat)

abbrev Pattern := List Piece

namespace Pattern

/-- Whether the pattern fits at the front of `text`, where `before` is the character in front of
it. -/
def fits : Pattern → (before : Option Char) → (text : List Char) → Bool
  | [], _, _ => true
  | .boundary :: rest, before, text =>
    before.any isWord != text.head?.any isWord && fits rest before text
  | .one test :: rest, _, c :: text => test c && fits rest (some c) text
  | .one _ :: _, _, [] => false
  | .blanks atLeast :: rest, before, text =>
    let blanks := text.takeWhile isBlank
    atLeast ≤ blanks.length && fits rest (blanks.getLast?.or before) (text.dropWhile isBlank)

/-- Whether the pattern fits at some place of `text`, where `before` is the character in front of
it. -/
def occursAfter (p : Pattern) : (before : Option Char) → (text : List Char) → Bool
  | before, [] => p.fits before []
  | before, c :: text => p.fits before (c :: text) || p.occursAfter (some c) text

/-- Whether the pattern fits at some place of a text. -/
def occurs (p : Pattern) (text : List Char) : Bool := p.occursAfter none text

/-! ### Building patterns -/

/-- These characters. -/
def exactly (text : String) : Pattern :=
  text.toList.map fun c => .one (· == c)

/-- Whether `c` is the ASCII letter `letter` but for its case.  Two letters beyond ASCII, the long s
and the sign of the kelvin, have an ASCII letter as their other case. -/
def sameLetter (letter c : Char) : Bool :=
  c.toLower == letter.toLower ||
    (letter.toLower == 's' && c == '\u017f') || (letter.toLower == 'k' && c == '\u212a')

/-- A whole word. -/
def word (w : String) : Pattern := .boundary :: exactly w ++ [.boundary]

/-- A whole word, in any case. -/
def wordAnyCase (w : String) : Pattern :=
  .boundary :: w.toList.map (fun letter => .one (sameLetter letter)) ++ [.boundary]

/-- A whole word, then blanks if there are any, then an opening mark. -/
def wordThen (w : String) (mark : Char) : Pattern :=
  .boundary :: exactly w ++ [.blanks 0, .one (· == mark)]

/-- Whether an identifier of a programming language can start with the character. -/
def startsName (c : Char) : Bool := c.isAlpha || c == '_' || c == '$'

end Pattern

/-! ### Rules -/

/-- Why a text is denied. -/
inductive DenyReason where
  | dynamicCode | construction | moduleImport | ambientObject | network | timer | loop
  | functionDeclaration | classDeclaration | arrowFunction | prototypeAccess
deriving DecidableEq, Repr

def DenyReason.text : DenyReason → String
  | .dynamicCode => "dynamic code execution"
  | .construction => "object construction"
  | .moduleImport => "module import"
  | .ambientObject => "ambient object access"
  | .network => "network access"
  | .timer => "timer"
  | .loop => "loop"
  | .functionDeclaration => "function declaration"
  | .classDeclaration => "class declaration"
  | .arrowFunction => "arrow function"
  | .prototypeAccess => "prototype access"

structure DenyRule where
  reason : DenyReason
  pattern : Pattern

open Pattern in
/-- Every rule, in the order in which they are tried. -/
def denyRules : List DenyRule := [
  ⟨.dynamicCode, wordThen "eval" '('⟩,
  ⟨.dynamicCode, wordThen "Function" '('⟩,
  ⟨.construction, .boundary :: exactly "new" ++ [.blanks 1, .one startsName]⟩,
  ⟨.moduleImport, word "import"⟩,
  ⟨.moduleImport, wordThen "require" '('⟩,
  ⟨.ambientObject, word "process"⟩,
  ⟨.ambientObject, word "global"⟩,
  ⟨.ambientObject, word "globalThis"⟩,
  ⟨.ambientObject, word "window"⟩,
  ⟨.ambientObject, word "document"⟩,
  ⟨.network, wordThen "fetch" '('⟩,
  ⟨.network, wordAnyCase "XMLHttpRequest"⟩,
  ⟨.network, wordAnyCase "WebSocket"⟩,
  ⟨.network, wordAnyCase "socket"⟩,
  ⟨.timer, word "setTimeout"⟩,
  ⟨.timer, word "setInterval"⟩,
  ⟨.timer, word "setImmediate"⟩,
  ⟨.loop, wordThen "for" '('⟩,
  ⟨.loop, wordThen "while" '('⟩,
  ⟨.loop, wordThen "do" '\x7b'⟩,
  ⟨.functionDeclaration, word "function"⟩,
  ⟨.classDeclaration, word "class"⟩,
  ⟨.arrowFunction, exactly "=>"⟩,
  ⟨.prototypeAccess, word "constructor"⟩,
  ⟨.prototypeAccess, exactly "__proto__"⟩,
  ⟨.prototypeAccess, word "prototype"⟩]

/-- The reason of the first rule whose pattern occurs in the text. -/
def denied? (text : List Char) : Option DenyReason :=
  (denyRules.find? (·.pattern.occurs text)).map (·.reason)

end RuleConditions
