import RuleConditions.Text.Invisible

/-!
# Quoted text

A text between two quote marks, on one line and with every character visible: a character that
would not show is written by its code point, and the quote mark and the backslash stand behind a
backslash.
-/

namespace RuleConditions.Text

/-- How a character stands between quote marks of the kind `mark`. -/
def quoteChar (mark c : Char) : List Char :=
  match c with
  | '\x00' => ['\\', '0']
  | '\t' => ['\\', 't']
  | '\n' => ['\\', 'n']
  | '\r' => ['\\', 'r']
  | '\\' => ['\\', '\\']
  | c =>
    if c = mark then ['\\', c]
    else if isInvisible c then
      ['\\', 'u', '\x7b'] ++ Nat.toDigits 16 c.toNat ++ ['\x7d']
    else [c]

/-- The text between two quote marks of the kind `mark`. -/
def quote (mark : Char) (text : List Char) : String :=
  String.ofList (mark :: text.flatMap (quoteChar mark) ++ [mark])

end RuleConditions.Text
