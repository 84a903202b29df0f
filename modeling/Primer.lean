import Primer.Cli.Options
import Primer.Cli.Outcome
import Primer.Cli.Run
import Primer.Diagnostic
import Primer.Eval.Basic
import Primer.Eval.Expr
import Primer.Eval.Operators
import Primer.Eval.Run
import Primer.Heap.Basic
import Primer.Heap.Literal
import Primer.Heap.Scope
import Primer.Heap.Table
import Primer.Json
import Primer.Main
import Primer.Parser.Parse
import Primer.Parser.Precedence
import Primer.Parser.Rules
import Primer.Parser.State
import Primer.Proofs.Eval.Confined
import Primer.Proofs.Eval.Evolution
import Primer.Proofs.Eval.Growth
import Primer.Proofs.Eval.History
import Primer.Proofs.Eval.Limits
import Primer.Proofs.Eval.Noninterference
import Primer.Proofs.Eval.Sequence
import Primer.Proofs.Eval.Signals
import Primer.Proofs.Eval.Spans
import Primer.Proofs.Eval.Tasks
import Primer.Proofs.Eval.Termination
import Primer.Proofs.Eval.Translation
import Primer.Proofs.Heap.Changes
import Primer.Proofs.Heap.Entries
import Primer.Proofs.Heap.Reach
import Primer.Proofs.Heap.Renaming
import Primer.Proofs.Heap.Resolution
import Primer.Proofs.Parser.Append
import Primer.Proofs.Parser.Grammar
import Primer.Proofs.Parser.Height
import Primer.Proofs.Parser.Layout
import Primer.Proofs.Parser.Lockstep
import Primer.Proofs.Parser.Mirror
import Primer.Proofs.Parser.Names
import Primer.Proofs.Parser.Nesting
import Primer.Proofs.Parser.Progress
import Primer.Proofs.Parser.Readable
import Primer.Proofs.Parser.Render
import Primer.Proofs.Parser.RoundTrip
import Primer.Proofs.Parser.Runs
import Primer.Proofs.Parser.SameTokens
import Primer.Proofs.Parser.Soundness
import Primer.Proofs.Parser.Spans
import Primer.Proofs.Parser.Steps
import Primer.Proofs.Token.Append
import Primer.Proofs.Token.Tiling
import Primer.Proofs.Token.Words
import Primer.Proofs.Tree.Datum
import Primer.Proofs.Tree.Sexpr
import Primer.Proofs.Tree.Spans
import Primer.RuntimeError
import Primer.Span
import Primer.Text.Blank
import Primer.Text.Quoted
import Primer.Text.Ranges
import Primer.Text.Unprintable
import Primer.Text.Utf8
import Primer.Text.Width
import Primer.Token
import Primer.Token.Lexeme
import Primer.Token.Lexer
import Primer.Token.Trivia
import Primer.Tree
import Primer.Tree.Equal
import Primer.Tree.Json
import Primer.Tree.Label
import Primer.Tree.Overlay
import Primer.Tree.Sexpr
import Primer.Tree.Spans
import Primer.Value
import Primer.Proofs.Token.LongestMatch
import Primer.Proofs.Cli.Session
import Primer.Proofs.Cli.Strict
import Primer.Proofs.Eval.Loading
import Primer.Proofs.Eval.FreshLabels
import Primer.Proofs.Eval.Repetition
import Primer.Proofs.Eval.EntryAssignment
import Primer.Proofs.Parser.BlockEnds
import Primer.Proofs.Eval.Arithmetic
import Primer.Proofs.Eval.Nodewise
import Primer.Proofs.Eval.DeadCode
import Primer.Proofs.Eval.Shorthand
import Primer.Proofs.Eval.Decimal
import Primer.Proofs.Parser.Reports
import Primer.Proofs.Parser.Replay
import Primer.Proofs.Parser.Cuts
import Primer.Proofs.Token.Piece
import Primer.Proofs.Parser.Reparse
import Primer.Proofs.Token.Respaced
import Primer.Proofs.Token.Lines
