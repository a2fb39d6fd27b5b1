import Mend.ApiCall
import Mend.Category
import Mend.Checksum
import Mend.CommandLine.Arguments
import Mend.CommandLine.Command
import Mend.CommandLine.Console
import Mend.CommandLine.Listing
import Mend.CommandLine.Run
import Mend.Config.Basic
import Mend.Config.Markers
import Mend.Count
import Mend.Data.Basic
import Mend.Data.Json
import Mend.Data.Toml
import Mend.Diff.Apply
import Mend.Diff.Edit
import Mend.Diff.Hunk
import Mend.Diff.Lookahead
import Mend.Diff.Subsequence
import Mend.Diff.Unified
import Mend.Fault
import Mend.FileRole
import Mend.FileTree
import Mend.Fix
import Mend.Ignore.Glob
import Mend.Ignore.Rules
import Mend.Issue
import Mend.Language
import Mend.Main
import Mend.Memo
import Mend.Patch.Applier
import Mend.Patch.Backup
import Mend.Patch.Locate
import Mend.Patch.Merge
import Mend.Path
import Mend.Pattern.Search
import Mend.Platform
import Mend.Proofs.Diff.RoundTrip
import Mend.Proofs.Diff.Unified
import Mend.Proofs.Patch.Commute
import Mend.Proofs.Patch.Placement
import Mend.Proofs.Patch.Preview
import Mend.Proofs.Patch.Splice
import Mend.Proofs.Pattern.Reading
import Mend.Proofs.Remediation.Rollback
import Mend.Proofs.Synthesis.Draft
import Mend.Proofs.Text.Mask
import Mend.Proofs.Text.Offset
import Mend.Ratio
import Mend.Remediation.Report
import Mend.Remediation.Service
import Mend.Remediation.Summary
import Mend.Rule.Android
import Mend.Rule.Basic
import Mend.Rule.Catalogue
import Mend.Rule.Context
import Mend.Rule.ControlFlow
import Mend.Rule.Flutter
import Mend.Rule.Ios
import Mend.Rule.React
import Mend.Scan
import Mend.Severity
import Mend.Store.Basic
import Mend.Store.Home
import Mend.Store.Records
import Mend.Structure
import Mend.Synthesis.Capture
import Mend.Synthesis.Draft
import Mend.Synthesis.Effect
import Mend.Synthesis.Lifecycle
import Mend.Synthesis.Operator
import Mend.Synthesis.Template
import Mend.Synthesis.Window
import Mend.Text.Balance
import Mend.Text.Blank
import Mend.Text.Escaped
import Mend.Text.LineIndex
import Mend.Text.Lines
import Mend.Text.Mask
import Mend.Text.Offset
import Mend.Text.Ranges
import Mend.Text.Search
import Mend.Text.Word
import Mend.Time
import Mend.Walk
import Mend.Workspace
import Mend.Proofs.Patch.Replacement
import Mend.Proofs.Remediation.Run
import Mend.Proofs.Remediation.Audit
import Mend.Proofs.Remediation.Consent
import Mend.Proofs.Remediation.Layers
import Mend.Proofs.Text.Lexing
import Mend.Proofs.Pattern.Parts
import Mend.Proofs.Text.Balance
import Mend.Proofs.Patch.Sanity
import Mend.Proofs.Remediation.Refusal
import Mend.Proofs.Patch.Calls
import Mend.Proofs.Remediation.Reconcile
import Mend.Proofs.Remediation.Reported
import Mend.Proofs.Store.Durability
import Mend.Proofs.Remediation.Live
import Mend.Proofs.Remediation.FirstScan
import Mend.Proofs.Diff.Reread
import Mend.Proofs.Remediation.History
import Mend.Proofs.Remediation.Unrecorded
import Mend.Proofs.Pattern.Running
import Mend.Proofs.Rule.Cleanup
import Mend.Proofs.Store.Failed
import Mend.Proofs.Ordering
import Mend.Proofs.Remediation.Listing
import Mend.Proofs.Text.Good
import Mend.Proofs.Checked.Context
import Mend.Proofs.Checked.Rules
import Mend.Proofs.Checked.Mask
import Mend.Proofs.Checked.Scan
import Mend.Proofs.Patch.Operators
import Mend.Proofs.Synthesis.Cleanup
import Mend.Proofs.Synthesis.Capture
import Mend.Proofs.Patch.Resolved
import Mend.Proofs.Diff.Subsequence
import Mend.Proofs.Diff.Exact
import Mend.Proofs.Checked.Apply
import Mend.Proofs.Diff.Reversed
import Mend.Proofs.Diff.Shortest
import Mend.Proofs.Checked.Patch
import Mend.Proofs.Ratio
import Mend.Proofs.Patch.Ladder
import Mend.Proofs.Patch.Comment
import Mend.Proofs.Checked.Draft
import Mend.Proofs.Checked.Line
import Mend.Proofs.Checked.Blocks
import Mend.Proofs.Checked.Synthesis
import Mend.Proofs.Text.Literal
import Mend.Proofs.Rule.Blocks
import Mend.Proofs.Rule.Waiting
import Mend.Proofs.FileRole
import Mend.Proofs.Text.Pairing
import Mend.Proofs.Synthesis.Tail
import Mend.Proofs.Synthesis.Focus
import Mend.Proofs.Walk
