import RuleConditions.Arity
import RuleConditions.Bindings
import RuleConditions.Catalogue
import RuleConditions.Cut
import RuleConditions.Denylist
import RuleConditions.Directory
import RuleConditions.Error
import RuleConditions.Evaluate
import RuleConditions.Json
import RuleConditions.Judgement
import RuleConditions.Literal
import RuleConditions.Number.Basic
import RuleConditions.Number.CubeRoot
import RuleConditions.Number.Numeral
import RuleConditions.Number.Remainder
import RuleConditions.Number.Shortest
import RuleConditions.Number.Whole
import RuleConditions.Operation
import RuleConditions.Options
import RuleConditions.Precedence
import RuleConditions.Run
import RuleConditions.Session
import RuleConditions.Shape
import RuleConditions.Text.Blank
import RuleConditions.Text.Digit
import RuleConditions.Text.Excerpt
import RuleConditions.Text.Invisible
import RuleConditions.Text.Quoted
import RuleConditions.Text.Ranges
import RuleConditions.Text.Word
import RuleConditions.Token.Basic
import RuleConditions.Token.Lexeme
import RuleConditions.Token.Pairing
import RuleConditions.Value.Basic
import RuleConditions.Value.Coercion
import RuleConditions.Value.Comparison
import RuleConditions.Value.Text
import RuleConditions.Proofs.Directories
import RuleConditions.Proofs.Cuts
import RuleConditions.Proofs.Neighbours
import RuleConditions.Proofs.Pairing
import RuleConditions.Proofs.Arguments
import RuleConditions.Proofs.Reading
import RuleConditions.Proofs.Grammar
import RuleConditions.Proofs.Evaluation
import RuleConditions.Proofs.Outcome
import RuleConditions.Proofs.Acceptance
import RuleConditions.Proofs.Agreement
import RuleConditions.Proofs.Expression
import RuleConditions.Proofs.Meaning
import RuleConditions.Proofs.DepthLimit
import RuleConditions.Proofs.ControlFlow
import RuleConditions.Proofs.Frames
import RuleConditions.Proofs.ReadNames
import RuleConditions.Proofs.Lexemes
import RuleConditions.Proofs.Patterns
import RuleConditions.Proofs.DeniedNames
import RuleConditions.Proofs.Embedding
import RuleConditions.Proofs.Causes
import RuleConditions.Proofs.Limits
import RuleConditions.Proofs.Splits
import RuleConditions.Proofs.Checks
import RuleConditions.Proofs.BracketWords
import RuleConditions.Proofs.OpenBrackets
import RuleConditions.Proofs.Grouping
import RuleConditions.Proofs.Readings
import RuleConditions.Proofs.FirstFault
import RuleConditions.Proofs.Rendering
import RuleConditions.Proofs.Machine.Basic
import RuleConditions.Proofs.Machine.Shapes
import RuleConditions.Proofs.Machine.Tokens
import RuleConditions.Proofs.Machine.Runs
import RuleConditions.Proofs.Machine.Faults
import RuleConditions.Proofs.Doubles.Parts
import RuleConditions.Proofs.Doubles.Order
import RuleConditions.Proofs.Doubles.Rounding
import RuleConditions.Proofs.Doubles.Nearest
import RuleConditions.Proofs.Doubles.Decimals
import RuleConditions.Proofs.Doubles.Exact
import RuleConditions.Proofs.Doubles.Sums
import RuleConditions.Proofs.Doubles.Whole
import RuleConditions.Proofs.HalfUp
import RuleConditions.Proofs.Equality
import RuleConditions.Proofs.Ordering
import RuleConditions.Proofs.NaN
import RuleConditions.Proofs.Extremes
import RuleConditions.Proofs.Indexing
import RuleConditions.Proofs.Integers
import RuleConditions.Proofs.Arithmetic
import RuleConditions.Proofs.Numerals
import RuleConditions.Proofs.NumberWords
import RuleConditions.Proofs.NumericText
