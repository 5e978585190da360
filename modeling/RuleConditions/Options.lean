import RuleConditions.Json
import RuleConditions.Precedence

/-!
# Options

The limits under which conditions are judged, and how they are read from a document.  A document
need not name every option: what is missing keeps its default.  An array gives the options in the
order of the structure's fields.
-/

namespace RuleConditions

structure Options where
  /-- The greatest number of characters. -/
  maxLength : Nat := 500
  /-- The greatest number of tokens. -/
  maxTokens : Nat := 100
  /-- The greatest depth of evaluation. -/
  maxDepth : Nat := 64
  /-- How many characters of a condition a report quotes. -/
  excerptLength : Nat := 100
  precedence : Precedence := .conventional
deriving DecidableEq, Repr

namespace Precedence

def text : Precedence → String
  | .conventional => "conventional"
  | .legacy => "legacy"

/-- The precedence of that name. -/
def ofText? (text : String) : Option Precedence :=
  [conventional, legacy].find? (·.text = text)

/-- A precedence is given by its name, or by an object with that name for its only member and
nothing in it. -/
def ofJson? : Json → Option Precedence
  | .string name => ofText? name
  | .object [(name, .null)] => ofText? name
  | _ => none

end Precedence

/-- The count that a document gives. -/
def Json.count? : Json → Option Nat
  | .number n => n.toCount?
  | _ => none

namespace Options

/-- The options by name. -/
inductive Field where
  | maxLength | maxTokens | maxDepth | excerptLength | precedence
deriving DecidableEq, Repr

/-- Every option, in the order in which an array gives them. -/
def Field.all : List Field := [.maxLength, .maxTokens, .maxDepth, .excerptLength, .precedence]

def Field.text : Field → String
  | .maxLength => "max_length"
  | .maxTokens => "max_tokens"
  | .maxDepth => "max_depth"
  | .excerptLength => "log_truncate_len"
  | .precedence => "precedence"

/-- The option of that name. -/
def Field.ofText? (text : String) : Option Field := all.find? (·.text = text)

/-- Sets one option to what a document gives, if that can be its value. -/
def set? (o : Options) (field : Field) (j : Json) : Option Options :=
  match field with
  | .maxLength => j.count?.map fun n => { o with maxLength := n }
  | .maxTokens => j.count?.map fun n => { o with maxTokens := n }
  | .maxDepth => j.count?.map fun n => { o with maxDepth := n }
  | .excerptLength => j.count?.map fun n => { o with excerptLength := n }
  | .precedence => (Precedence.ofJson? j).map fun p => { o with precedence := p }

/-- Sets those of some options that have a member of their name.  Members of other names are passed
over. -/
def setMembers? (o : Options) (members : List (String × Json)) : List Field → Option Options
  | [] => some o
  | field :: fields =>
    match Json.member? members field.text with
    | none => o.setMembers? members fields
    | some j => (o.set? field j).bind (·.setMembers? members fields)

/-- Sets the options in order, as far as there are items.  There may not be more items than
options. -/
def setItems? (o : Options) : List Field → List Json → Option Options
  | _, [] => some o
  | [], _ :: _ => none
  | field :: fields, j :: rest => (o.set? field j).bind (·.setItems? fields rest)

/-- The options that a document gives. -/
def ofJson? : Json → Option Options
  | .object members => ({} : Options).setMembers? members Field.all
  | .array items => ({} : Options).setItems? Field.all items
  | _ => none

end Options

end RuleConditions
