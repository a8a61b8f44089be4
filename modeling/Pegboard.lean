import Pegboard.Command.Options
import Pegboard.Command.Report
import Pegboard.Command.Run
import Pegboard.Decimal.Binary64
import Pegboard.Decimal.Read
import Pegboard.Decimal.Shortest
import Pegboard.Decimal.Style
import Pegboard.Diagnostic
import Pegboard.Diagnostic.Code
import Pegboard.Expr.Builtin
import Pegboard.Expr.Error
import Pegboard.Expr.Eval
import Pegboard.Expr.Scopes
import Pegboard.Grammar.Expr
import Pegboard.Grammar.Interchange
import Pegboard.Grammar.Mention
import Pegboard.Grammar.Outline
import Pegboard.Grammar.Parse
import Pegboard.Grammar.Pattern
import Pegboard.Grammar.Print
import Pegboard.Grammar.Rules
import Pegboard.Grammar.SyntaxError
import Pegboard.Grammar.Tag
import Pegboard.Json
import Pegboard.Lint
import Pegboard.Lint.Shadowed
import Pegboard.Lint.Unused
import Pegboard.Main
import Pegboard.Match.Eval
import Pegboard.Match.Result
import Pegboard.Match.State
import Pegboard.Normalize
import Pegboard.Normalize.Error
import Pegboard.Normalize.LeftRecursion
import Pegboard.Normalize.Memo
import Pegboard.Normalize.Positional
import Pegboard.Normalize.Scopes
import Pegboard.Normalize.Simplify
import Pegboard.Normalize.Validate
import Pegboard.Text.Numeral
import Pegboard.Text.Outline
import Pegboard.Text.Quoted
import Pegboard.Text.Span
import Pegboard.Token
import Pegboard.Token.Layout
import Pegboard.Token.Scan
import Pegboard.Unicode.Category
import Pegboard.Unicode.CategoryRuns
import Pegboard.Unicode.LaterRuns
import Pegboard.Unicode.Property
import Pegboard.Value
import Pegboard.Value.Text
import Pegboard.Proofs.Expr.Reads
import Pegboard.Proofs.Grammar.Opening
import Pegboard.Proofs.Match.Frame
import Pegboard.Proofs.Match.Progress
import Pegboard.Proofs.Match.Mirror
import Pegboard.Proofs.Normalize.Closed
import Pegboard.Proofs.Match.LeftFold
import Pegboard.Proofs.Normalize.Detection
import Pegboard.Proofs.Normalize.Memoizable
import Pegboard.Proofs.Match.Active
import Pegboard.Proofs.Match.Memoization
import Pegboard.Proofs.Grammar.Parts
import Pegboard.Proofs.Token.Literal
import Pegboard.Proofs.Token.Display
import Pegboard.Proofs.Token.Rescan
import Pegboard.Proofs.Expr.Flat
import Pegboard.Proofs.Grammar.Skeleton
import Pegboard.Proofs.Expr.Reread
import Pegboard.Proofs.Grammar.Rows
import Pegboard.Proofs.Grammar.Reread
import Pegboard.Proofs.Grammar.Legible
import Pegboard.Proofs.Normalize.Valid
import Pegboard.Proofs.Match.Context
import Pegboard.Proofs.Match.Bounds
import Pegboard.Proofs.Match.Termination
import Pegboard.Proofs.Grammar.Lines
import Pegboard.Proofs.Grammar.Derivation
import Pegboard.Proofs.Grammar.Written
import Pegboard.Proofs.Expr.Printed
import Pegboard.Proofs.Grammar.Regroup
import Pegboard.Proofs.Normalize.Printable
import Pegboard.Proofs.Normalize.Settled
import Pegboard.Proofs.Normalize.Source
import Pegboard.Proofs.Normalize.NormalForm
import Pegboard.Proofs.Normalize.Passes
import Pegboard.Proofs.Normalize.Reprint
import Pegboard.Proofs.Grammar.Essence
import Pegboard.Proofs.Grammar.Roundtrip
import Pegboard.Proofs.Grammar.Interchange
import Pegboard.Proofs.Match.Simplification
import Pegboard.Proofs.Match.Essence
import Pegboard.Proofs.Normalize.Tidy
import Pegboard.Proofs.Normalize.Exchange
import Pegboard.Proofs.Normalize.Meaning
import Pegboard.Proofs.Match.Literal
import Pegboard.Proofs.Match.Peg
import Pegboard.Proofs.Match.Growth
import Pegboard.Proofs.Match.Suffixes
import Pegboard.Proofs.Match.Operators
import Pegboard.Proofs.Match.Associativity
import Pegboard.Proofs.Match.Indifference
import Pegboard.Proofs.Match.Neutral
import Pegboard.Proofs.Match.Acceptance
import Pegboard.Proofs.Token.Places
import Pegboard.Proofs.Token.Partition
import Pegboard.Proofs.Grammar.Places
import Pegboard.Proofs.Grammar.Respaced
import Pegboard.Proofs.Match.Failures
import Pegboard.Proofs.Match.Counterpart
import Pegboard.Proofs.Match.Cache
import Pegboard.Proofs.Match.Overwrapping
import Pegboard.Proofs.Command.Lint
import Pegboard.Proofs.Normalize.Reachability
import Pegboard.Proofs.Match.Positional
import Pegboard.Proofs.Match.Offsets
import Pegboard.Proofs.Normalize.Analyses
import Pegboard.Proofs.Normalize.Faults
import Pegboard.Proofs.Match.Agreement
import Pegboard.Proofs.Lint.Unused
import Pegboard.Proofs.Match.Thinning
import Pegboard.Proofs.Lint.Gap
import Pegboard.Proofs.Lint.Shadowed
import Pegboard.Proofs.Text.Numeral
import Pegboard.Proofs.Expr.Integers
import Pegboard.Proofs.Expr.Methods
import Pegboard.Proofs.Match.Repetition
import Pegboard.Proofs.Match.Restart
import Pegboard.Proofs.Expr.Mentioned
import Pegboard.Proofs.Normalize.Selection
import Pegboard.Proofs.Text.LineCol
import Pegboard.Proofs.Match.Cacheable
import Pegboard.Proofs.Normalize.Recursion
import Pegboard.Proofs.Match.Unwrapping
