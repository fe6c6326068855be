import Runbook.CommandLine.Command
import Runbook.CommandLine.Reply
import Runbook.Context
import Runbook.Delay
import Runbook.Document
import Runbook.Expression.Basic
import Runbook.Expression.Reading
import Runbook.Expression.Scan
import Runbook.File.Path
import Runbook.File.System
import Runbook.Main
import Runbook.Number.Basic
import Runbook.Number.Double
import Runbook.Number.Power
import Runbook.Number.Reading
import Runbook.Number.Shortest
import Runbook.Parameters
import Runbook.Path
import Runbook.Redaction
import Runbook.Report
import Runbook.Resolver
import Runbook.Run.Attempt
import Runbook.Run.Interpreter
import Runbook.Run.Outcome
import Runbook.Run.Registry
import Runbook.Session
import Runbook.Settings.Basic
import Runbook.Settings.Loading
import Runbook.Step
import Runbook.Template
import Runbook.Text.Blank
import Runbook.Text.Inspection
import Runbook.Text.Numeral
import Runbook.Text.Search
import Runbook.Text.Unprintable
import Runbook.Text.WordCharacter
import Runbook.Tools.Arguments
import Runbook.Tools.Sessions
import Runbook.Tools.Texts
import Runbook.Tools.Workbench
import Runbook.Value.Basic
import Runbook.Value.Fault
import Runbook.Value.Misfit
import Runbook.Value.Reading
import Runbook.Value.RecordText
import Runbook.Value.Skipping
import Runbook.Value.Writing
import Runbook.WorkflowFile
import Runbook.Yaml.Cursor
import Runbook.Yaml.Node
import Runbook.Yaml.Scalar
import Runbook.Yaml.Schema
import Runbook.Yaml.Token
import Runbook.Proofs.CommandLine.Reply
import Runbook.Proofs.CommandLine.Root
import Runbook.Proofs.CommandLine.Secret
import Runbook.Proofs.Condition
import Runbook.Proofs.Delay.Backoff
import Runbook.Proofs.Delay.Reading
import Runbook.Proofs.Expression.Comparison
import Runbook.Proofs.Expression.Data
import Runbook.Proofs.Expression.Descent
import Runbook.Proofs.Expression.Form
import Runbook.Proofs.Expression.Formula
import Runbook.Proofs.Expression.Grammar
import Runbook.Proofs.Expression.Leaf
import Runbook.Proofs.Expression.Operand
import Runbook.Proofs.Expression.Reading
import Runbook.Proofs.Expression.Scan
import Runbook.Proofs.Expression.Splicing
import Runbook.Proofs.Expression.Splitting
import Runbook.Proofs.File.Ancestors
import Runbook.Proofs.File.Home
import Runbook.Proofs.File.Joining
import Runbook.Proofs.File.Path
import Runbook.Proofs.File.System
import Runbook.Proofs.Mention
import Runbook.Proofs.Number.Rounding
import Runbook.Proofs.Parameters
import Runbook.Proofs.Path
import Runbook.Proofs.Path.Stepwise
import Runbook.Proofs.Redaction.Assignment
import Runbook.Proofs.Redaction.Exposure
import Runbook.Proofs.Redaction.Frame
import Runbook.Proofs.Redaction.Literal
import Runbook.Proofs.Redaction.Pattern
import Runbook.Proofs.Redaction.Scan
import Runbook.Proofs.Redaction.Word
import Runbook.Proofs.Resolver
import Runbook.Proofs.Run.Addressing
import Runbook.Proofs.Run.Bindings
import Runbook.Proofs.Run.Cancellation
import Runbook.Proofs.Run.Engines
import Runbook.Proofs.Run.History
import Runbook.Proofs.Run.Influence
import Runbook.Proofs.Run.Itinerary
import Runbook.Proofs.Run.LoopSplitting
import Runbook.Proofs.Run.Outcome
import Runbook.Proofs.Run.Sequence
import Runbook.Proofs.Run.Simulation
import Runbook.Proofs.Run.Substitution
import Runbook.Proofs.Run.Transcript
import Runbook.Proofs.Run.Unmentioned
import Runbook.Proofs.Session
import Runbook.Proofs.Session.Handle
import Runbook.Proofs.Settings.Loading
import Runbook.Proofs.Step.Loop
import Runbook.Proofs.Step.NormalForm
import Runbook.Proofs.Step.Retries
import Runbook.Proofs.Template
import Runbook.Proofs.Template.Diagnostics
import Runbook.Proofs.Template.Rendering
import Runbook.Proofs.Template.Single
import Runbook.Proofs.Template.Spans
import Runbook.Proofs.Text.Blank
import Runbook.Proofs.Text.Numeral
import Runbook.Proofs.Text.Search
import Runbook.Proofs.Text.Words
import Runbook.Proofs.Tools.Confinement
import Runbook.Proofs.Tools.Nesting
import Runbook.Proofs.Tools.Summary
import Runbook.Proofs.Tools.Validation
import Runbook.Proofs.Value.Grammar
import Runbook.Proofs.Value.Layout
import Runbook.Proofs.Value.Reading
import Runbook.Proofs.Value.RecordText
import Runbook.Proofs.Value.RoundTrip
