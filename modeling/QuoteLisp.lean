import QuoteLisp.Arity
import QuoteLisp.CommandLine
import QuoteLisp.Environment
import QuoteLisp.Error
import QuoteLisp.Eval.Arguments
import QuoteLisp.Eval.Arithmetic
import QuoteLisp.Eval.Call
import QuoteLisp.Eval.Comparison
import QuoteLisp.Eval.Control
import QuoteLisp.Eval.Data
import QuoteLisp.Eval.Definition
import QuoteLisp.Eval.Primitive
import QuoteLisp.Eval.Reduce
import QuoteLisp.Eval.State
import QuoteLisp.Folder
import QuoteLisp.Host
import QuoteLisp.Host.Sample
import QuoteLisp.Kind
import QuoteLisp.Machine
import QuoteLisp.Main
import QuoteLisp.Number.Binary
import QuoteLisp.Number.Fixed
import QuoteLisp.Number.Integer
import QuoteLisp.Number.Power
import QuoteLisp.Number.Reading
import QuoteLisp.Number.Remainder
import QuoteLisp.Number.Shortest
import QuoteLisp.Pool
import QuoteLisp.Primitive
import QuoteLisp.Scope
import QuoteLisp.Session
import QuoteLisp.Source.Node
import QuoteLisp.Source.ParseError
import QuoteLisp.Source.Parser
import QuoteLisp.Source.Reader
import QuoteLisp.Source.Token
import QuoteLisp.Text.Blank
import QuoteLisp.Text.Escape
import QuoteLisp.Text.Measure
import QuoteLisp.Value.Basic
import QuoteLisp.Value.Embed
import QuoteLisp.Value.Equality
import QuoteLisp.Value.Inspect
import QuoteLisp.Value.Printer
import QuoteLisp.Proofs.Eval.Likeness
import QuoteLisp.Proofs.Eval.Congruence
import QuoteLisp.Proofs.Eval.Reduction
import QuoteLisp.Proofs.Eval.Invariant
import QuoteLisp.Proofs.Pool.Holding
import QuoteLisp.Proofs.Eval.Operands
import QuoteLisp.Proofs.Environment.Home
import QuoteLisp.Proofs.Eval.Balance
import QuoteLisp.Proofs.Environment.Rebinding
import QuoteLisp.Proofs.Eval.Counting
import QuoteLisp.Proofs.Eval.Definition
import QuoteLisp.Proofs.Session.Capacity
import QuoteLisp.Proofs.Session.Protection
import QuoteLisp.Proofs.Source.Grammar
import QuoteLisp.Proofs.Source.Scanning
import QuoteLisp.Proofs.Source.Acceptance
import QuoteLisp.Proofs.Value.RoundTrip
import QuoteLisp.Proofs.Eval.Levels
import QuoteLisp.Proofs.Eval.Interruption
import QuoteLisp.Proofs.Session.DepthLimit
import QuoteLisp.Proofs.Session.NormalForms
import QuoteLisp.Proofs.Eval.Currying
import QuoteLisp.Proofs.Session.CallerScopes
import QuoteLisp.Proofs.Pool.Handles
import QuoteLisp.Proofs.Eval.Fuel
import QuoteLisp.Proofs.Source.Continuation
import QuoteLisp.Proofs.Source.Refusal
import QuoteLisp.Proofs.Source.Extension
import QuoteLisp.Proofs.Session.Loading
import QuoteLisp.Proofs.Eval.Supervision
import QuoteLisp.Proofs.Session.LocalScopes
import QuoteLisp.Proofs.Session.ExitStatus
import QuoteLisp.Proofs.Eval.ExactArithmetic
import QuoteLisp.Proofs.Eval.ArgumentBinding
import QuoteLisp.Proofs.Environment.Insertion
import QuoteLisp.Proofs.Session.UnrelatedNames
import QuoteLisp.Proofs.Eval.Uncalled
import QuoteLisp.Proofs.Eval.Alongside
import QuoteLisp.Proofs.Session.LoadScript
import QuoteLisp.Proofs.Pool.History
import QuoteLisp.Proofs.Pool.FirstFit
import QuoteLisp.Proofs.Pool.Counters
import QuoteLisp.Proofs.Text.ByteOrder
import QuoteLisp.Proofs.Environment.Listing
import QuoteLisp.Proofs.Eval.Needs
import QuoteLisp.Proofs.Eval.ListLength
import QuoteLisp.Proofs.Value.Sameness
import QuoteLisp.Proofs.Source.Context
import QuoteLisp.Proofs.Source.Layout
import QuoteLisp.Proofs.Eval.PrintedClosures
import QuoteLisp.Proofs.Scope.History
import QuoteLisp.Proofs.Source.StringLiteral
import QuoteLisp.Proofs.Value.NumberLiteral
import QuoteLisp.Proofs.Eval.FirstFailure
