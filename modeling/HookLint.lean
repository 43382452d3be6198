import HookLint.Cli.Arguments
import HookLint.Cli.Console
import HookLint.Cli.Feed
import HookLint.Cli.Run
import HookLint.Data.Assoc
import HookLint.Data.Attach
import HookLint.Data.Binary64
import HookLint.Data.Value
import HookLint.Dependency.Declared
import HookLint.Dependency.Diff
import HookLint.Dependency.Path
import HookLint.Dependency.Reconciliation
import HookLint.Dependency.Reference
import HookLint.Files.Discovery
import HookLint.Files.FileTree
import HookLint.Files.Pathname
import HookLint.Hook.Registry
import HookLint.Hook.Site
import HookLint.Json.Printer
import HookLint.Json.Reader
import HookLint.Lint.Linter
import HookLint.Lint.Rule
import HookLint.Lint.Summary
import HookLint.Log.Event
import HookLint.Main
import HookLint.Options.Basic
import HookLint.Options.Loading
import HookLint.Options.Readers
import HookLint.Options.Validation
import HookLint.Regex.Basic
import HookLint.Regex.Parser
import HookLint.Report.Builder
import HookLint.Report.Diagnostic
import HookLint.Report.Fix
import HookLint.Report.Message
import HookLint.Scope.Declaration
import HookLint.Scope.Pattern
import HookLint.Scope.Script
import HookLint.Scope.Slot
import HookLint.Scope.Store
import HookLint.Scope.Tree
import HookLint.Scope.Walk
import HookLint.Stability.Classifier
import HookLint.Stability.Construction
import HookLint.Stability.Label
import HookLint.Stability.Spec
import HookLint.Syntax.Call
import HookLint.Syntax.Cursor
import HookLint.Syntax.Encoding
import HookLint.Syntax.Fault
import HookLint.Syntax.Kind
import HookLint.Syntax.Node
import HookLint.Syntax.Source
import HookLint.Text.Blank
import HookLint.Text.Case
import HookLint.Text.Digit
import HookLint.Text.Identifier
import HookLint.Text.Rest
import HookLint.Text.Run
import HookLint.Text.Upper
import HookLint.Text.Word
import HookLint.Toml.Reader
import HookLint.Toml.Scalar
import HookLint.Proofs.Data.Assoc
import HookLint.Proofs.Stability.Closure
import HookLint.Proofs.Dependency.References
import HookLint.Proofs.Stability.StaticBinding
import HookLint.Proofs.Stability.History
import HookLint.Proofs.Dependency.Fates
import HookLint.Proofs.Dependency.FixedArray
import HookLint.Proofs.Dependency.PlainSite
import HookLint.Proofs.Lint.MissingDependency
import HookLint.Proofs.Report.Replacement
import HookLint.Proofs.Lint.SiteFix
import HookLint.Proofs.Lint.FixSpans
import HookLint.Proofs.Lint.FixPasses
import HookLint.Proofs.Dependency.ElementUse
import HookLint.Proofs.Lint.Settling
import HookLint.Proofs.Syntax.Descent
import HookLint.Proofs.Syntax.Layout
import HookLint.Proofs.Syntax.Preorder
import HookLint.Proofs.Scope.Places
import HookLint.Proofs.Scope.Nesting
import HookLint.Proofs.Scope.Reach
import HookLint.Proofs.Scope.Region
import HookLint.Proofs.Scope.Arrival
import HookLint.Proofs.Scope.Frame
import HookLint.Proofs.Scope.CallSpan
import HookLint.Proofs.Scope.Resolution
import HookLint.Proofs.Scope.Hoisting
import HookLint.Proofs.Dependency.Hygiene
import HookLint.Proofs.Scope.ScriptRun
import HookLint.Proofs.Dependency.Relaxation
import HookLint.Proofs.Lint.MemoChain
import HookLint.Proofs.Options.Faults
import HookLint.Proofs.Options.LoadFailure
import HookLint.Proofs.Scope.SourceOrder
import HookLint.Proofs.Lint.ArrayAccount
import HookLint.Proofs.Dependency.ExactReferences
import HookLint.Proofs.Report.Selection
import HookLint.Proofs.Cli.CheckRun
import HookLint.Proofs.Scope.OutermostStep
import HookLint.Proofs.Lint.FreshValue
import HookLint.Proofs.Dependency.MemberPath
import HookLint.Proofs.Lint.ElementPath
import HookLint.Proofs.Scope.Reassignment
import HookLint.Proofs.Scope.VariableEntries
import HookLint.Proofs.Stability.SoleBinding
import HookLint.Proofs.Syntax.FirstFault
import HookLint.Proofs.Files.Below
import HookLint.Proofs.Files.Listing
import HookLint.Proofs.Files.Writing
import HookLint.Proofs.Json.OneLine
import HookLint.Proofs.Log.Completion
import HookLint.Proofs.Log.Lines
import HookLint.Proofs.Options.RoundTrip
