import LintLayer.Action
import LintLayer.Analyzer.Basic
import LintLayer.Analyzer.Output
import LintLayer.Analyzer.Package
import LintLayer.Analyzer.Resolver
import LintLayer.Batch
import LintLayer.CommandLine.Arguments
import LintLayer.CommandLine.Run
import LintLayer.Diagnostic
import LintLayer.Disk
import LintLayer.Edit
import LintLayer.Exclusion
import LintLayer.Glob.Basic
import LintLayer.Glob.Nesting
import LintLayer.Glob.Parser
import LintLayer.Json.Basic
import LintLayer.Json.Printer
import LintLayer.Json.Reader
import LintLayer.Json.Real
import LintLayer.Json.Record
import LintLayer.Layer.Basic
import LintLayer.Layer.Service
import LintLayer.LineTable
import LintLayer.Machine
import LintLayer.Number.Binary
import LintLayer.Number.Shortest
import LintLayer.Options.Basic
import LintLayer.Options.Document
import LintLayer.Options.File
import LintLayer.Options.Notification
import LintLayer.Path.Basic
import LintLayer.Path.Map
import LintLayer.Problem
import LintLayer.Recency
import LintLayer.Report.Basic
import LintLayer.Report.Finding
import LintLayer.Report.Wire
import LintLayer.Runner
import LintLayer.Span
import LintLayer.Text.Blank
import LintLayer.Text.Hidden
import LintLayer.Text.Measure
import LintLayer.Text.Quoted
import LintLayer.Text.Utf8
import LintLayer.Toml.Basic
import LintLayer.Toml.Parser
import LintLayer.Toml.Scalar
import LintLayer.Wire
import LintLayer.Main
import LintLayer.Proofs.Text.Measure
import LintLayer.Proofs.Text.Boundary
import LintLayer.Proofs.LineTable.Tiling
import LintLayer.Proofs.LineTable.Offset
import LintLayer.Proofs.Text.Utf16
import LintLayer.Proofs.LineTable.Inverse
import LintLayer.Proofs.LineTable.Pieces
import LintLayer.Proofs.LineTable.Position
import LintLayer.Proofs.Sort.Stability
import LintLayer.Proofs.Edit.BackToFront
import LintLayer.Proofs.Edit.Patch
import LintLayer.Proofs.Edit.Simultaneous
import LintLayer.Proofs.Edit.Overflow
import LintLayer.Proofs.LineTable.DisableLine
import LintLayer.Proofs.Edit.Ties
import LintLayer.Proofs.Fix.Greedy
import LintLayer.Proofs.Fix.CodeUnits
import LintLayer.Proofs.Path.Map
import LintLayer.Proofs.Problem.Registry
import LintLayer.Proofs.Problem.Placement
import LintLayer.Proofs.Layer.Run
import LintLayer.Proofs.Layer.LatestPass
import LintLayer.Proofs.Layer.OfferedEdits
import LintLayer.Proofs.Path.Directory
import LintLayer.Proofs.Runner.Memory
import LintLayer.Proofs.Layer.Transparency
import LintLayer.Proofs.Action.Group
import LintLayer.Proofs.Layer.RuleGroup
import LintLayer.Proofs.Layer.Publication
import LintLayer.Proofs.Layer.HostAnswers
import LintLayer.Proofs.Recency.Keys
import LintLayer.Proofs.Runner.Recent
import LintLayer.Proofs.Runner.Warnings
import LintLayer.Proofs.Batch.Members
import LintLayer.Proofs.Batch.Overflow
import LintLayer.Proofs.Batch.Selection
import LintLayer.Proofs.Batch.Framing
import LintLayer.Proofs.Runner.Calls
import LintLayer.Proofs.Json.Canonical
import LintLayer.Proofs.Json.Codec
import LintLayer.Proofs.Wire.RoundTrip
import LintLayer.Proofs.CommandLine.Untouched
import LintLayer.Proofs.Disk.Rewriting
import LintLayer.Proofs.CommandLine.Repairs
import LintLayer.Proofs.LineTable.Uniqueness
import LintLayer.Proofs.LineTable.PrintedPosition
import LintLayer.Proofs.Problem.OrderedMap
import LintLayer.Proofs.Recency.History
import LintLayer.Proofs.Fix.ListingOrder
import LintLayer.Proofs.Wire.FixForms
import LintLayer.Proofs.Path.Joining
import LintLayer.Proofs.Path.Place
import LintLayer.Proofs.Runner.Override
import LintLayer.Proofs.Analyzer.NearestPackage
import LintLayer.Proofs.Path.NormalForm
import LintLayer.Proofs.Analyzer.WarningGroups
