import BuildPlan.Console.Arguments
import BuildPlan.Console.Command
import BuildPlan.Console.Style
import BuildPlan.Digraph
import BuildPlan.Files.Error
import BuildPlan.Files.Listing
import BuildPlan.Files.Tree
import BuildPlan.Files.Write
import BuildPlan.Fixture.Definition
import BuildPlan.Fixture.Directive
import BuildPlan.Generation.Error
import BuildPlan.Generation.Inputs
import BuildPlan.Generation.Plan
import BuildPlan.Graph.Input
import BuildPlan.Graph.Manifest
import BuildPlan.Graph.Rules
import BuildPlan.Json.Escape
import BuildPlan.Json.Reader
import BuildPlan.Kdl.Character
import BuildPlan.Kdl.Document
import BuildPlan.Kdl.Text
import BuildPlan.Kdl.Token
import BuildPlan.Kdl.Word
import BuildPlan.Main
import BuildPlan.Ninja.Basic
import BuildPlan.Ninja.Index
import BuildPlan.Ninja.Manifest
import BuildPlan.Ninja.Render
import BuildPlan.Pack.Headers
import BuildPlan.Pack.Library
import BuildPlan.Pack.Step
import BuildPlan.Path
import BuildPlan.Project.Basic
import BuildPlan.Project.Locate
import BuildPlan.Project.Pattern
import BuildPlan.Project.Reader
import BuildPlan.Project.TestFiles
import BuildPlan.Project.Validation
import BuildPlan.Record.Basic
import BuildPlan.Record.Token
import BuildPlan.Scenario.Basic
import BuildPlan.Scenario.Builder
import BuildPlan.Scenario.Compiled
import BuildPlan.Scenario.Driver
import BuildPlan.Scenario.Script
import BuildPlan.Scenario.Words
import BuildPlan.Shell.Arithmetic
import BuildPlan.Shell.Builtin
import BuildPlan.Shell.Condition
import BuildPlan.Shell.Expansion
import BuildPlan.Shell.Format
import BuildPlan.Shell.Pattern
import BuildPlan.Shell.Reader
import BuildPlan.Shell.Run
import BuildPlan.Shell.State
import BuildPlan.Shell.Syntax
import BuildPlan.Shell.Token
import BuildPlan.TestRun.Difference
import BuildPlan.TestRun.Process
import BuildPlan.TestRun.Run
import BuildPlan.TestRun.Verdict
import BuildPlan.Text.Blank
import BuildPlan.Text.CLiteral
import BuildPlan.Text.Hex
import BuildPlan.Text.Line
import BuildPlan.Text.Numeral
import BuildPlan.Text.Printable
import BuildPlan.Text.Quoted
import BuildPlan.Text.Search
import BuildPlan.Text.Split
import BuildPlan.Text.Utf8
import BuildPlan.Text.Wrap
import BuildPlan.Toolchain.Basic
import BuildPlan.Toolchain.Commands
import BuildPlan.Toolchain.Selection
import BuildPlan.Proofs.DepthFirst
import BuildPlan.Proofs.Manifest
import BuildPlan.Proofs.Index
import BuildPlan.Proofs.TestTargets
import BuildPlan.Proofs.Session
import BuildPlan.Proofs.Bytes
import BuildPlan.Proofs.Json
import BuildPlan.Proofs.Token
import BuildPlan.Proofs.Lookup
import BuildPlan.Proofs.Inputs
import BuildPlan.Proofs.Regeneration
import BuildPlan.Proofs.BuildGraph
import BuildPlan.Proofs.Verdict
import BuildPlan.Proofs.Buildable
import BuildPlan.Proofs.Driver
import BuildPlan.Proofs.Script
import BuildPlan.Proofs.Closure
import BuildPlan.Proofs.Growth
import BuildPlan.Proofs.Placement
import BuildPlan.Proofs.Interruption
import BuildPlan.Proofs.Repetition
import BuildPlan.Proofs.Presence
import BuildPlan.Proofs.Listed
import BuildPlan.Proofs.ManifestReader
import BuildPlan.Proofs.ManifestText
import BuildPlan.Proofs.Replacing
import BuildPlan.Proofs.Arguments
import BuildPlan.Proofs.Spelling
import BuildPlan.Proofs.Enumeration
import BuildPlan.Proofs.Discovery
import BuildPlan.Proofs.Walk
import BuildPlan.Proofs.HeaderWalk
import BuildPlan.Proofs.Layout
import BuildPlan.Proofs.Sections
import BuildPlan.Proofs.Packing
import BuildPlan.Proofs.Linking
import BuildPlan.Proofs.CommonLines
import BuildPlan.Proofs.Tabulation
import BuildPlan.Proofs.Difference
import BuildPlan.Proofs.Culprit
import BuildPlan.Proofs.WayUp
import BuildPlan.Proofs.Directives
import BuildPlan.Proofs.Editing
import BuildPlan.Proofs.ShellWords
import BuildPlan.Proofs.SupportFile
import BuildPlan.Proofs.CommandWords
import BuildPlan.Proofs.PackingSteps
import BuildPlan.Proofs.CSource
import BuildPlan.Proofs.CStatement
import BuildPlan.Proofs.DriverData
import BuildPlan.Proofs.DriverStatements
import BuildPlan.Proofs.Execution
import BuildPlan.Proofs.LiteralBytes
import BuildPlan.Proofs.HeaderTable
import BuildPlan.Proofs.ScriptLines
import BuildPlan.Proofs.LineEndings
import BuildPlan.Proofs.NamePatterns
import BuildPlan.Proofs.Statuses
import BuildPlan.Proofs.Staging
import BuildPlan.Proofs.Wrapping
import BuildPlan.Proofs.WordGrammar
import BuildPlan.Proofs.Locating
import BuildPlan.Proofs.IntConstants
