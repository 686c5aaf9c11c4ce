import TypeBench.Approach.Baseline
import TypeBench.Approach.Basic
import TypeBench.Approach.Event
import TypeBench.Approach.Scripted
import TypeBench.Calendar.Basic
import TypeBench.Calendar.Reader
import TypeBench.Command.Arguments
import TypeBench.Command.Execution
import TypeBench.Command.Snapshot
import TypeBench.Command.Transcript
import TypeBench.Command.Watch
import TypeBench.Config.Basic
import TypeBench.Config.Event
import TypeBench.Config.Interpolation
import TypeBench.Config.Loading
import TypeBench.Evaluation.Bench
import TypeBench.Evaluation.Clock
import TypeBench.Evaluation.Event
import TypeBench.Evaluation.Observer
import TypeBench.Evaluation.Progress
import TypeBench.Evaluation.Session
import TypeBench.Failure
import TypeBench.FileTree
import TypeBench.Groups
import TypeBench.Hint
import TypeBench.Json.Basic
import TypeBench.Json.Reader
import TypeBench.Json.Writer
import TypeBench.Log
import TypeBench.Main
import TypeBench.Markup.Colour
import TypeBench.Markup.Style
import TypeBench.Markup.Tag
import TypeBench.Named
import TypeBench.Notice
import TypeBench.Number.Binary64
import TypeBench.Number.Decimal
import TypeBench.Number.Mixed
import TypeBench.Number.Quantity
import TypeBench.Occurrence.Basic
import TypeBench.Occurrence.Walk
import TypeBench.Path
import TypeBench.Position
import TypeBench.Prediction
import TypeBench.Proofs.Approach.Distinct
import TypeBench.Proofs.Approach.Indices
import TypeBench.Proofs.Approach.Merging
import TypeBench.Proofs.Approach.Options
import TypeBench.Proofs.Approach.PlainLabels
import TypeBench.Proofs.Approach.Prediction
import TypeBench.Proofs.Approach.Reachable
import TypeBench.Proofs.Approach.Seeding
import TypeBench.Proofs.Command.Parts
import TypeBench.Proofs.Command.Run
import TypeBench.Proofs.Command.Stages
import TypeBench.Proofs.Command.Steps
import TypeBench.Proofs.Command.Writing
import TypeBench.Proofs.Config.Loaded
import TypeBench.Proofs.Config.Missing
import TypeBench.Proofs.Config.Outcome
import TypeBench.Proofs.Config.References
import TypeBench.Proofs.Config.Replacement
import TypeBench.Proofs.Config.Warnings
import TypeBench.Proofs.Evaluation.Batch
import TypeBench.Proofs.Evaluation.Course
import TypeBench.Proofs.Evaluation.Disposal
import TypeBench.Proofs.Evaluation.Isolation
import TypeBench.Proofs.Evaluation.Lockstep
import TypeBench.Proofs.Evaluation.Names
import TypeBench.Proofs.Evaluation.Reasons
import TypeBench.Proofs.Evaluation.Record
import TypeBench.Proofs.Evaluation.Registry
import TypeBench.Proofs.Evaluation.Repetition
import TypeBench.Proofs.Evaluation.Reproducibility
import TypeBench.Proofs.Evaluation.SteadyClock
import TypeBench.Proofs.Evaluation.Success
import TypeBench.Proofs.Evaluation.Tagging
import TypeBench.Proofs.Evaluation.Timing
import TypeBench.Proofs.Evaluation.Uninterrupted
import TypeBench.Proofs.Evaluation.Use
import TypeBench.Proofs.Evaluation.Watching
import TypeBench.Proofs.Matching.Account
import TypeBench.Proofs.Matching.Conservation
import TypeBench.Proofs.Matching.Extension
import TypeBench.Proofs.Matching.FirstFit
import TypeBench.Proofs.Matching.Grouping
import TypeBench.Proofs.Matching.Reordering
import TypeBench.Proofs.Matching.Run
import TypeBench.Proofs.Number.Dyadic
import TypeBench.Proofs.Number.Exact
import TypeBench.Proofs.Number.NonNegative
import TypeBench.Proofs.Number.Rounding
import TypeBench.Proofs.Occurrence.Faithful
import TypeBench.Proofs.Occurrence.Hints
import TypeBench.Proofs.Occurrence.Order
import TypeBench.Proofs.Occurrence.Recursion
import TypeBench.Proofs.Occurrence.Roles
import TypeBench.Proofs.Occurrence.Scopes
import TypeBench.Proofs.Occurrence.Steps
import TypeBench.Proofs.Occurrence.Stretches
import TypeBench.Proofs.Occurrence.Unreadable
import TypeBench.Proofs.Occurrence.Usages
import TypeBench.Proofs.Progress.Calls
import TypeBench.Proofs.Progress.Pace
import TypeBench.Proofs.Progress.Rows
import TypeBench.Proofs.Report.Lines
import TypeBench.Proofs.Report.LogLines
import TypeBench.Proofs.Report.Place
import TypeBench.Proofs.Score.Acceptance
import TypeBench.Proofs.Score.Bounds
import TypeBench.Proofs.Score.Extension
import TypeBench.Proofs.Score.LabelMaps
import TypeBench.Proofs.Score.Labels
import TypeBench.Proofs.Score.Means
import TypeBench.Proofs.Score.Perfect
import TypeBench.Proofs.Score.Policies
import TypeBench.Proofs.Score.Ranking
import TypeBench.Proofs.Score.Relabelling
import TypeBench.Proofs.Score.Reordering
import TypeBench.Proofs.Score.Totals
import TypeBench.Proofs.TestCase.Account
import TypeBench.Proofs.TestCase.DistinctIds
import TypeBench.Proofs.TestCase.Ending
import TypeBench.Proofs.TestCase.Entries
import TypeBench.Proofs.TestCase.Loaded
import TypeBench.Proofs.TestCase.Repetition
import TypeBench.Proofs.Text.Decoding
import TypeBench.Proofs.Text.Encoding
import TypeBench.Proofs.Text.Lines
import TypeBench.Proofs.Text.Order
import TypeBench.Proofs.Text.Plain
import TypeBench.Proofs.Tree.Faults
import TypeBench.Proofs.Tree.Nodes
import TypeBench.Proofs.Tree.Place
import TypeBench.Proofs.Validation.Accepted
import TypeBench.Proofs.Validation.Problems
import TypeBench.Proofs.Value.Shown
import TypeBench.Random.Twister
import TypeBench.Report.Console
import TypeBench.Report.Document
import TypeBench.Scope
import TypeBench.Score.Comparison
import TypeBench.Score.Matching
import TypeBench.Score.Mean
import TypeBench.Score.Metrics
import TypeBench.Score.Policy
import TypeBench.Score.Result
import TypeBench.TestCase.Basic
import TypeBench.TestCase.Event
import TypeBench.TestCase.Loading
import TypeBench.TestCase.Samples
import TypeBench.TestCase.Source
import TypeBench.Text.Basic
import TypeBench.Text.Digit
import TypeBench.Text.Integer
import TypeBench.Text.Numeral
import TypeBench.Text.Printable
import TypeBench.Text.Quoted
import TypeBench.Text.Styled
import TypeBench.Text.Utf8
import TypeBench.Tree.Basic
import TypeBench.Tree.Context
import TypeBench.Tree.Document
import TypeBench.Tree.Kind
import TypeBench.Tree.Listing
import TypeBench.Tree.Node
import TypeBench.Tree.SourceUnit
import TypeBench.Tree.Walk
import TypeBench.Usage
import TypeBench.Validation.Basic
import TypeBench.Validation.Change
import TypeBench.Validation.Fields
import TypeBench.Value.Basic
import TypeBench.Value.Display
