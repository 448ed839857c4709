import Formulary.CommandLine.Basic
import Formulary.CommandLine.OnStack
import Formulary.CommandLine.Options
import Formulary.CommandLine.Transcript
import Formulary.CommandLine.Usage
import Formulary.Diagnostic
import Formulary.Diagnostic.Codes
import Formulary.Evaluation.Action
import Formulary.Evaluation.Basic
import Formulary.Evaluation.Builtin
import Formulary.Evaluation.Error
import Formulary.Evaluation.OnStack
import Formulary.Evaluation.Stacked
import Formulary.Evaluation.Target
import Formulary.Evaluation.Value
import Formulary.Expr.Basic
import Formulary.Expr.Inspect
import Formulary.Expr.OnStack
import Formulary.Expr.Source
import Formulary.File.Source
import Formulary.File.Text
import Formulary.File.Workspace
import Formulary.Location
import Formulary.Main
import Formulary.NameTable
import Formulary.Number.Integer
import Formulary.Number.Magnitude
import Formulary.Number.Nearest
import Formulary.Number.Notation
import Formulary.Number.Shortest
import Formulary.Parser.Agreement
import Formulary.Parser.Basic
import Formulary.Parser.Descent
import Formulary.Parser.Error
import Formulary.Parser.Grammar
import Formulary.Parser.Machine
import Formulary.Parser.OnStack
import Formulary.Parser.Session
import Formulary.Program
import Formulary.Proofs.CommandLine.Gates
import Formulary.Proofs.CommandLine.Status
import Formulary.Proofs.Descent.Acceptance
import Formulary.Proofs.Descent.Climbing
import Formulary.Proofs.Descent.Lockstep
import Formulary.Proofs.Descent.Nesting
import Formulary.Proofs.Descent.Placement
import Formulary.Proofs.Descent.Prefix
import Formulary.Proofs.Descent.Reuse
import Formulary.Proofs.Descent.Unstacked
import Formulary.Proofs.Descent.Widening
import Formulary.Proofs.Evaluation.CallBody
import Formulary.Proofs.Evaluation.Free
import Formulary.Proofs.Evaluation.Latest
import Formulary.Proofs.Evaluation.LoopFree
import Formulary.Proofs.Evaluation.Prediction
import Formulary.Proofs.Evaluation.Renaming
import Formulary.Proofs.Evaluation.Session
import Formulary.Proofs.Evaluation.Superseded
import Formulary.Proofs.Grammar.Walk
import Formulary.Proofs.Resolution.EditDistance
import Formulary.Proofs.Resolution.Errors
import Formulary.Proofs.Resolution.Occurrences
import Formulary.Proofs.Resolution.Suggestions
import Formulary.Proofs.Resolution.Warnings
import Formulary.Proofs.Source.Building
import Formulary.Proofs.Source.Concatenation
import Formulary.Proofs.Source.Conflicts
import Formulary.Proofs.Source.Layout
import Formulary.Proofs.Source.Meaning
import Formulary.Proofs.Source.Numbers
import Formulary.Proofs.Source.Spans
import Formulary.Proofs.Source.WellFormed
import Formulary.Proofs.Stacked.CallBody
import Formulary.Proofs.Stacked.Limit
import Formulary.Proofs.Stacked.Meaning
import Formulary.Proofs.Stacked.Prediction
import Formulary.Proofs.Stacked.Reentry
import Formulary.Proofs.Stacked.Session
import Formulary.Proofs.Token.LineEnds
import Formulary.Proofs.Token.Sharing
import Formulary.Proofs.Token.Tokenizing
import Formulary.Resolution.Basic
import Formulary.Resolution.Distance
import Formulary.Resolution.Error
import Formulary.Stack
import Formulary.Text.Alphabetic
import Formulary.Text.Blank
import Formulary.Text.Digit
import Formulary.Text.Printable
import Formulary.Text.Quoted
import Formulary.Token.Basic
import Formulary.Token.Lexer
import Formulary.Token.Numeral
import Formulary.Token.Session
