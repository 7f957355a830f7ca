import TreeMachine.CommandLine.Action
import TreeMachine.CommandLine.Arguments
import TreeMachine.CommandLine.Variables
import TreeMachine.Config.Basic
import TreeMachine.Config.File
import TreeMachine.Config.Format
import TreeMachine.Config.Load
import TreeMachine.Config.Merge
import TreeMachine.Config.Setting
import TreeMachine.Context
import TreeMachine.Debugger.Command
import TreeMachine.Debugger.Dialogue
import TreeMachine.Debugger.Line
import TreeMachine.Env
import TreeMachine.Execution.Call
import TreeMachine.Execution.Expression
import TreeMachine.Execution.Statement
import TreeMachine.Execution.Step
import TreeMachine.Execution.Work
import TreeMachine.Fault
import TreeMachine.Frame
import TreeMachine.Heap
import TreeMachine.Ini.Reader
import TreeMachine.Iteration
import TreeMachine.Json.Escape
import TreeMachine.Json.Fields
import TreeMachine.Json.Liberal
import TreeMachine.Json.Literal
import TreeMachine.Json.Reader
import TreeMachine.Json.Tree
import TreeMachine.Json.Value
import TreeMachine.Linking
import TreeMachine.Machine
import TreeMachine.Main
import TreeMachine.Node
import TreeMachine.Number.Binary
import TreeMachine.Number.Nearest
import TreeMachine.Number.Positional
import TreeMachine.Number.Remainder
import TreeMachine.Number.Shortest
import TreeMachine.Primitive.Apply
import TreeMachine.Primitive.Arithmetic
import TreeMachine.Primitive.Basic
import TreeMachine.Program
import TreeMachine.Proofs.Control.Activations
import TreeMachine.Proofs.Control.Closures
import TreeMachine.Proofs.Control.Continuations
import TreeMachine.Proofs.Control.Costs
import TreeMachine.Proofs.Control.LateBinding
import TreeMachine.Proofs.Control.Locality
import TreeMachine.Proofs.Control.Operands
import TreeMachine.Proofs.Debugger.Scripts
import TreeMachine.Proofs.Debugger.SingleSteps
import TreeMachine.Proofs.Execution.Entries
import TreeMachine.Proofs.Execution.Flow
import TreeMachine.Proofs.Execution.Frame
import TreeMachine.Proofs.Execution.Steps
import TreeMachine.Proofs.Execution.Writes
import TreeMachine.Proofs.Heap.Exactness
import TreeMachine.Proofs.Heap.Histories
import TreeMachine.Proofs.Heap.Marking
import TreeMachine.Proofs.Heap.Valid
import TreeMachine.Proofs.Iteration.Messages
import TreeMachine.Proofs.Iteration.Ranges
import TreeMachine.Proofs.Iteration.Schedules
import TreeMachine.Proofs.Json.Back
import TreeMachine.Proofs.Json.Numbers
import TreeMachine.Proofs.Json.Strings
import TreeMachine.Proofs.Json.Texts
import TreeMachine.Proofs.Linking.Acceptance
import TreeMachine.Proofs.Linking.Apart
import TreeMachine.Proofs.Linking.Bodies
import TreeMachine.Proofs.Linking.Checks
import TreeMachine.Proofs.Linking.Effects
import TreeMachine.Proofs.Linking.Fitting
import TreeMachine.Proofs.Linking.Forest
import TreeMachine.Proofs.Linking.Gives
import TreeMachine.Proofs.Linking.Growth
import TreeMachine.Proofs.Linking.Jumps
import TreeMachine.Proofs.Linking.Marks
import TreeMachine.Proofs.Linking.Modules
import TreeMachine.Proofs.Linking.Nodes
import TreeMachine.Proofs.Linking.Numbers
import TreeMachine.Proofs.Linking.Outlines
import TreeMachine.Proofs.Linking.Parameters
import TreeMachine.Proofs.Linking.Placement
import TreeMachine.Proofs.Linking.Programs
import TreeMachine.Proofs.Linking.Scoping
import TreeMachine.Proofs.Linking.Tables
import TreeMachine.Proofs.Linking.Tallies
import TreeMachine.Proofs.Linking.Trees
import TreeMachine.Proofs.Linking.Uses
import TreeMachine.Proofs.Observation.Runs
import TreeMachine.Proofs.Primitive.Integers
import TreeMachine.Proofs.Primitive.Results
import TreeMachine.Proofs.Reference.Calls
import TreeMachine.Proofs.Reference.Expressions
import TreeMachine.Proofs.Reference.Loops
import TreeMachine.Proofs.Reference.Runs
import TreeMachine.Proofs.Reference.Sessions
import TreeMachine.Proofs.Renaming.Calls
import TreeMachine.Proofs.Renaming.Runs
import TreeMachine.Proofs.Renaming.Steps
import TreeMachine.Proofs.Renaming.Values
import TreeMachine.Proofs.Renaming.Work
import TreeMachine.Proofs.Run.Budgets
import TreeMachine.Proofs.Run.Events
import TreeMachine.Proofs.Run.Fuel
import TreeMachine.Proofs.Run.Slicing
import TreeMachine.Proofs.Snapshot.Contexts
import TreeMachine.Proofs.Snapshot.Runs
import TreeMachine.Proofs.Snapshot.Values
import TreeMachine.Proofs.Soundness.Expressions
import TreeMachine.Proofs.Soundness.Readable
import TreeMachine.Proofs.Soundness.Runs
import TreeMachine.Proofs.Soundness.Shape
import TreeMachine.Proofs.Soundness.Statements
import TreeMachine.Proofs.Soundness.Steps
import TreeMachine.Proofs.Soundness.Values
import TreeMachine.Proofs.Soundness.Work
import TreeMachine.Proofs.Source.RoundTrip
import TreeMachine.Proofs.Text.Decimal
import TreeMachine.Proofs.Tree.Bindings
import TreeMachine.Proofs.Tree.Chain
import TreeMachine.Proofs.Tree.Scoping
import TreeMachine.Proofs.Tree.WellFormed
import TreeMachine.Proofs.Words.Steps
import TreeMachine.Proofs.Words.Work
import TreeMachine.Ron.Reader
import TreeMachine.Scalar
import TreeMachine.Session
import TreeMachine.Sink
import TreeMachine.Snapshot.Reader
import TreeMachine.Snapshot.Writer
import TreeMachine.Source.Basic
import TreeMachine.Source.Reader
import TreeMachine.Source.Writer
import TreeMachine.Stage
import TreeMachine.Text.Alphanumeric
import TreeMachine.Text.Blank
import TreeMachine.Text.CaseTable
import TreeMachine.Text.Decimal
import TreeMachine.Text.Lowercase
import TreeMachine.Text.Scan
import TreeMachine.Toml.DateTime
import TreeMachine.Toml.Literal
import TreeMachine.Toml.Reader
import TreeMachine.Toml.Scan
import TreeMachine.Toml.Value
import TreeMachine.Value
import TreeMachine.Word
import TreeMachine.Yaml.Reader
import TreeMachine.Yaml.Scan
import TreeMachine.Yaml.Tokens
