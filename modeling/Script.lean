import Script.Bindings
import Script.Builtin
import Script.Class
import Script.CommandLine
import Script.Display
import Script.Eval.Class
import Script.Eval.Expression
import Script.Eval.Host
import Script.Eval.Loop
import Script.Eval.Module
import Script.Eval.Operator
import Script.Eval.Statement
import Script.Fault
import Script.Fault.Grammar
import Script.Fault.Lexical
import Script.Fault.Running
import Script.Files
import Script.Frame
import Script.Heap
import Script.Kind
import Script.Machine
import Script.Main
import Script.Number.Double
import Script.Number.Integer
import Script.Number.Reading
import Script.Number.Shortest
import Script.Object
import Script.Parser.Expression
import Script.Parser.Statement
import Script.Parser.Stream
import Script.References
import Script.Repl
import Script.Report
import Script.Session
import Script.Span
import Script.Syntax
import Script.Text.Blank
import Script.Text.Case
import Script.Text.CaseData
import Script.Text.Letter
import Script.Text.Line
import Script.Text.Numeral
import Script.Text.Part
import Script.Text.Ranges
import Script.Token
import Script.Token.Lexer
import Script.Token.Scan
import Script.Value
import Script.Proofs.Grammar
import Script.Proofs.Reads
import Script.Proofs.ExpressionSoundness
import Script.Proofs.StatementSoundness
import Script.Proofs.Accepts
import Script.Proofs.ExpressionCompleteness
import Script.Proofs.StatementCompleteness
import Script.Proofs.ProgramCompleteness
import Script.Proofs.Layout.Moving
import Script.Proofs.Layout.Parsing
import Script.Proofs.Alike
import Script.Proofs.Layout.World
import Script.Proofs.Layout.Values
import Script.Proofs.Layout.Calls
import Script.Proofs.Layout.Expressions
import Script.Proofs.Layout.Modules
import Script.Proofs.Layout.Statements
import Script.Proofs.Layout.Independence
import Script.Proofs.HeapLaw
import Script.Proofs.Growth
import Script.Proofs.Imports
import Script.Proofs.Tiling
import Script.Proofs.Contexts
import Script.Proofs.Cycles
import Script.Proofs.Printing
import Script.Proofs.Places.Parsing
import Script.Proofs.Places.Sources
import Script.Proofs.Places.Running
import Script.Proofs.Places.Reports
import Script.Proofs.Writes
import Script.Proofs.Flows
import Script.Proofs.Keys
import Script.Proofs.Parts
import Script.Proofs.Sound.Heap
import Script.Proofs.Sound.Values
import Script.Proofs.Sound.Logic
import Script.Proofs.Sound.Running
import Script.Proofs.Sound.Reached
import Script.Proofs.Dispatch
import Script.Proofs.Strays
import Script.Proofs.Continuation.Expressions
import Script.Proofs.Continuation.Statements
import Script.Proofs.Continuation.Scanning
import Script.Proofs.Continuation.Entries
import Script.Proofs.Continuation.Concatenation
import Script.Proofs.Trace.Log
import Script.Proofs.Trace.Law
import Script.Proofs.Trace.Sessions
import Script.Proofs.Trace.Paths
import Script.Proofs.Trace.Sharing
import Script.Proofs.Frames
import Script.Proofs.Walk.Steps
import Script.Proofs.Walk.Expressions
import Script.Proofs.Walk.Statements
import Script.Proofs.Walk.Programs
import Script.Proofs.Literals.Data
import Script.Proofs.Literals.Reading
import Script.Proofs.Literals.Evaluation
import Script.Proofs.Limits
import Script.Proofs.Integers
import Script.Proofs.Doubles.Nearest
import Script.Proofs.Doubles.Conversion
import Script.Proofs.Comparisons
import Script.Proofs.Interactive.Pieces
import Script.Proofs.Interactive.Sessions
import Script.Proofs.Filling
import Script.Proofs.Loading
import Script.Proofs.Instances
import Script.Proofs.Isolation
import Script.Proofs.Namespaces
import Script.Proofs.Scopes
import Script.Proofs.Trace.Own
import Script.Proofs.Constructors
import Script.Proofs.Scalars
import Script.Proofs.Methods
import Script.Proofs.Detached.Shift
import Script.Proofs.Detached.Born
import Script.Proofs.Detached.Mirrors
import Script.Proofs.Detached.Evaluation
import Script.Proofs.Detached.Classes
import Script.Proofs.Phrases.Fragments
import Script.Proofs.Phrases.Laid
import Script.Proofs.Phrases.Lays
import Script.Proofs.Phrases.Expressions
import Script.Proofs.Phrases.Statements
import Script.Proofs.Phrases.Nodes
import Script.Proofs.Phrases.Sources
import Script.Proofs.Phrases.Formed
import Script.Proofs.ObjectLiterals
import Script.Proofs.Blame.Rules
import Script.Proofs.Blame.Expressions
import Script.Proofs.Blame.Statements
import Script.Proofs.MissingOperands
import Script.Proofs.Powers
import Script.Proofs.Loops
import Script.Proofs.NestedFailures
import Script.Proofs.Termination.Plain
import Script.Proofs.Termination.Nesting
import Script.Proofs.Termination.Renderings
import Script.Proofs.Termination.Settling
import Script.Proofs.Termination.Expressions
import Script.Proofs.Termination.Programs
import Script.Proofs.Scans
import Script.Proofs.Lexers
import Script.Proofs.Carets
import Script.Proofs.Decimals
