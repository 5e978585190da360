import RuleConditions.Text.Quoted

/-!
# Tokens

A condition is read as a list of tokens: number words, identifiers, strings and the twenty-one
symbols.  Fifteen symbols are binary operators, in three families (`LogicalOp`, `ComparisonOp`,
`ArithmeticOp`); the others are `!`, the four brackets and the comma.

The minus sign is one symbol.  Whether it stands between two operands or in front of one is decided
by the token before it: see `Token.endsOperand`.
-/

namespace RuleConditions

/-! ### Symbols -/

inductive LogicalOp where
  | and | or
deriving DecidableEq, Repr

inductive ComparisonOp where
  | equal | unequal | identical | distinct | less | greater | atMost | atLeast
deriving DecidableEq, Repr

inductive ArithmeticOp where
  | add | subtract | multiply | divide | remainder
deriving DecidableEq, Repr

/-- A binary operator. -/
inductive Operator where
  | logical (op : LogicalOp)
  | comparison (op : ComparisonOp)
  | arithmetic (op : ArithmeticOp)
deriving DecidableEq, Repr

inductive Bracket where
  | round | square
deriving DecidableEq, Repr

inductive Symbol where
  | operator (op : Operator)
  | bang
  | opening (b : Bracket)
  | closing (b : Bracket)
  | comma
deriving DecidableEq, Repr

def LogicalOp.text : LogicalOp → String
  | .and => "&&"
  | .or => "||"

def ComparisonOp.text : ComparisonOp → String
  | .equal => "=="
  | .unequal => "!="
  | .identical => "==="
  | .distinct => "!=="
  | .less => "<"
  | .greater => ">"
  | .atMost => "<="
  | .atLeast => ">="

def ArithmeticOp.text : ArithmeticOp → String
  | .add => "+"
  | .subtract => "-"
  | .multiply => "*"
  | .divide => "/"
  | .remainder => "%"

def Operator.text : Operator → String
  | .logical op => op.text
  | .comparison op => op.text
  | .arithmetic op => op.text

/-- How a symbol is written. -/
def Symbol.text : Symbol → String
  | .operator op => op.text
  | .bang => "!"
  | .opening .round => "("
  | .closing .round => ")"
  | .opening .square => "["
  | .closing .square => "]"
  | .comma => ","

/-- Every symbol, the longer ones first. -/
def Symbol.all : List Symbol :=
  ([.comparison .identical, .comparison .distinct,
    .logical .and, .logical .or, .comparison .equal, .comparison .unequal, .comparison .atMost,
    .comparison .atLeast,
    .arithmetic .add, .arithmetic .subtract, .arithmetic .multiply, .arithmetic .divide,
    .arithmetic .remainder, .comparison .less, .comparison .greater].map Symbol.operator) ++
  [.opening .round, .closing .round, .opening .square, .closing .square, .comma, .bang]

/-- The symbol that is written so. -/
def Symbol.ofText? (text : String) : Option Symbol := all.find? (·.text = text)

/-! ### Tokens -/

inductive Token where
  /-- A word of digits and dots, which need not be a numeral. -/
  | number (text : String)
  | ident (name : String)
  /-- The contents of a string, without its quote marks and escapes. -/
  | str (contents : String)
  | symbol (s : Symbol)
deriving DecidableEq, Repr

namespace Token

/-- The token as text.  Strings stand between double quote marks. -/
def text : Token → String
  | .number text => text
  | .ident name => name
  | .str contents => Text.quote '"' contents.toList
  | .symbol s => s.text

/-- The texts of several tokens, with a space between each two. -/
def textAll (ts : List Token) : String :=
  " ".intercalate (ts.map text)

/-- Whether an operand can end with this token.  A `+` or `-` after such a token stands between two
operands. -/
def endsOperand : Token → Bool
  | .number _ | .ident _ | .str _ => true
  | .symbol (.closing _) => true
  | .symbol _ => false

/-- By how much the token changes the number of open brackets.  The kinds of bracket are not told
apart. -/
def nestingChange : Token → Int
  | .symbol (.opening _) => 1
  | .symbol (.closing _) => -1
  | _ => 0

end Token

/-- How many brackets are open after these tokens; negative where more are closed than opened. -/
def nesting (ts : List Token) : Int :=
  (ts.map Token.nestingChange).foldr (· + ·) 0

end RuleConditions
