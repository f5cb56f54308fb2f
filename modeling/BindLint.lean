import BindLint.CallSite
import BindLint.Closure
import BindLint.Command.Arguments
import BindLint.Command.Run
import BindLint.Files.Collect
import BindLint.Files.Path
import BindLint.Files.Tree
import BindLint.Finding
import BindLint.Fix
import BindLint.LineDiff.Hunk
import BindLint.LineDiff.Script
import BindLint.Lint
import BindLint.Log
import BindLint.Log.Console
import BindLint.Log.Directive
import BindLint.Log.Format
import BindLint.Main
import BindLint.Number.Binary
import BindLint.Number.Layout
import BindLint.Options
import BindLint.Options.File
import BindLint.Options.Resolve
import BindLint.Proofs.Alike
import BindLint.Proofs.Balance
import BindLint.Proofs.Boundary
import BindLint.Proofs.Chain
import BindLint.Proofs.Collected
import BindLint.Proofs.Comments
import BindLint.Proofs.Continued
import BindLint.Proofs.DiffText
import BindLint.Proofs.EqualTexts
import BindLint.Proofs.Faults
import BindLint.Proofs.FixedFiles
import BindLint.Proofs.Forwarded
import BindLint.Proofs.Gating
import BindLint.Proofs.Grammar
import BindLint.Proofs.Laminar
import BindLint.Proofs.LineEnds
import BindLint.Proofs.Locality
import BindLint.Proofs.Locations
import BindLint.Proofs.Names
import BindLint.Proofs.OptionFiles
import BindLint.Proofs.Overridden
import BindLint.Proofs.Paired
import BindLint.Proofs.Parentheses
import BindLint.Proofs.Passed
import BindLint.Proofs.Recheck
import BindLint.Proofs.Replay
import BindLint.Proofs.Reportable
import BindLint.Proofs.Resolved
import BindLint.Proofs.ResolvedNames
import BindLint.Proofs.Rounds
import BindLint.Proofs.Scopes
import BindLint.Proofs.Separate
import BindLint.Proofs.Splicing
import BindLint.Proofs.Stated
import BindLint.Proofs.Steps
import BindLint.Proofs.Surroundings
import BindLint.Proofs.Untouched
import BindLint.Proofs.Within
import BindLint.Proofs.Writes
import BindLint.Replacement
import BindLint.Report
import BindLint.Rule
import BindLint.Scan
import BindLint.Settings
import BindLint.Settings.VariableFile
import BindLint.Splice
import BindLint.Supply
import BindLint.Syntax.Encoding
import BindLint.Syntax.Node
import BindLint.Syntax.Place
import BindLint.Syntax.Source
import BindLint.Text.Blank
import BindLint.Text.Lines
import BindLint.Text.Plain
import BindLint.Text.Printable
import BindLint.Text.Quoted
import BindLint.Text.Utf8
import BindLint.Value
import BindLint.Value.Json
import BindLint.Value.Moment
import BindLint.Value.Toml
