import Monkey.Token
import Monkey.Token.Scan
import Monkey.Program
import Monkey.Program.Render
import Monkey.Program.Level
import Monkey.Parsing.Diagnostic
import Monkey.Parsing.Parsed
import Monkey.Parsing.Grammar
import Monkey.Parsing
import Monkey.Text.Utf8
import Monkey.Digest
import Monkey.Table
import Monkey.Value
import Monkey.Scope
import Monkey.Evaluation.Fault
import Monkey.Evaluation.Operation
import Monkey.Evaluation
import Monkey.Evaluation.Node
import Monkey.Log
import Monkey.Interpreter
import Monkey.Text.Unassigned
import Monkey.Text.Category
import Monkey.Text.Base64
import Monkey.Text.Quoted
import Monkey.Text.Lines
import Monkey.Path
import Monkey.File
import Monkey.Config
import Monkey.Yaml.Problem
import Monkey.Yaml.Source
import Monkey.Yaml.Token
import Monkey.Yaml.Token.Reading
import Monkey.Yaml.Token.Scalar
import Monkey.Yaml.Token.Property
import Monkey.Yaml.Token.Stream
import Monkey.Yaml.Tag
import Monkey.Yaml.Node
import Monkey.Yaml.Node.Grammar
import Monkey.Config.Misfit
import Monkey.Config.Decode
import Monkey.Session.Completion
import Monkey.Session.Reply
import Monkey.Session.Line
import Monkey.Session.History
import Monkey.Session.Interactive
import Monkey.CommandLine.Flag
import Monkey.CommandLine.Help
import Monkey.CommandLine
import Monkey.Main
import Monkey.Proofs.Parsing.Reads
import Monkey.Proofs.Parsing.Derivation
import Monkey.Proofs.Parsing.Soundness
import Monkey.Proofs.Token.Lexeme
import Monkey.Proofs.Program.WellFormed
import Monkey.Proofs.Parsing.Spelling
import Monkey.Proofs.Parsing.Completeness
import Monkey.Proofs.Parsing.WellFormed
import Monkey.Proofs.Parsing.Canonical
import Monkey.Proofs.Parsing.RoundTrip
import Monkey.Proofs.Table
import Monkey.Proofs.Evaluation.Statements
import Monkey.Proofs.Evaluation.Clean
import Monkey.Proofs.Evaluation.Partial
import Monkey.Proofs.Evaluation.Frame
import Monkey.Proofs.Evaluation.Context
import Monkey.Proofs.Evaluation.Raised
import Monkey.Proofs.Interpreter
import Monkey.Proofs.Token.Concat
import Monkey.Proofs.Parsing.Braces
import Monkey.Proofs.Parsing.Local
import Monkey.Proofs.Sequence
import Monkey.Proofs.Token.Layout
import Monkey.Proofs.Token.Cursor
import Monkey.Proofs.Evaluation.Alike
import Monkey.Proofs.Isolation
import Monkey.Proofs.Parsing.Reader
import Monkey.Proofs.Parsing.Termination
import Monkey.Proofs.Coincidence
import Monkey.Proofs.Hash
import Monkey.Proofs.Parsing.Numbers
import Monkey.Proofs.Inspect
import Monkey.Proofs.Evaluation.Arithmetic
import Monkey.Proofs.Parsing.Tracing
import Monkey.Proofs.Evaluation.Call
import Monkey.Proofs.Reduction
import Monkey.Proofs.Arrays
import Monkey.Proofs.Evaluation.Arguments
import Monkey.Proofs.Completion
import Monkey.Proofs.Session
import Monkey.Proofs.Visibility
