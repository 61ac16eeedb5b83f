import Packwright.Assoc
import Packwright.Batch
import Packwright.Bytes
import Packwright.Code.Condition
import Packwright.Code.Marshal
import Packwright.Code.Msgsize
import Packwright.Code.Place
import Packwright.Code.Tree
import Packwright.Code.Writer
import Packwright.Command.Arguments
import Packwright.Command.Run
import Packwright.Config
import Packwright.Document
import Packwright.Emptiness
import Packwright.Encoder
import Packwright.Error
import Packwright.Files.OsError
import Packwright.Files.Path
import Packwright.Files.Staged
import Packwright.Files.Tree
import Packwright.FloatBits
import Packwright.Generator
import Packwright.Generator.Marshal
import Packwright.Generator.Msgsize
import Packwright.Job
import Packwright.Json
import Packwright.Json.Lexer
import Packwright.Json.Number
import Packwright.Json.Reader
import Packwright.Json.Writer
import Packwright.Kind
import Packwright.Layout
import Packwright.Main
import Packwright.Pass
import Packwright.Printer
import Packwright.Proofs.ArrayHeaders
import Packwright.Proofs.Balance
import Packwright.Proofs.Buffering
import Packwright.Proofs.Comments
import Packwright.Proofs.Conformance
import Packwright.Proofs.Depth
import Packwright.Proofs.Derived
import Packwright.Proofs.Descriptor
import Packwright.Proofs.Documents
import Packwright.Proofs.Evolution
import Packwright.Proofs.Execution
import Packwright.Proofs.Faults
import Packwright.Proofs.FileTrees
import Packwright.Proofs.Finalized
import Packwright.Proofs.Format
import Packwright.Proofs.Forms
import Packwright.Proofs.Fusing
import Packwright.Proofs.Generation
import Packwright.Proofs.Generators
import Packwright.Proofs.Induction
import Packwright.Proofs.Inert
import Packwright.Proofs.Isolation
import Packwright.Proofs.JsonText
import Packwright.Proofs.JsonTokens
import Packwright.Proofs.Latching
import Packwright.Proofs.Layout
import Packwright.Proofs.Leaves
import Packwright.Proofs.MarshalCorrect
import Packwright.Proofs.MarshalRun
import Packwright.Proofs.MarshalSteps
import Packwright.Proofs.MarshalTally
import Packwright.Proofs.Masking
import Packwright.Proofs.MsgsizeBound
import Packwright.Proofs.MsgsizeRun
import Packwright.Proofs.Objects
import Packwright.Proofs.Omission
import Packwright.Proofs.OneLine
import Packwright.Proofs.Output
import Packwright.Proofs.Overflow
import Packwright.Proofs.PassOrder
import Packwright.Proofs.Paths
import Packwright.Proofs.Planned
import Packwright.Proofs.Printing
import Packwright.Proofs.Reading
import Packwright.Proofs.Scopes
import Packwright.Proofs.Sizes
import Packwright.Proofs.Staging
import Packwright.Proofs.Statements
import Packwright.Proofs.Steps
import Packwright.Proofs.Termination
import Packwright.Proofs.Traversal
import Packwright.Proofs.TypeNames
import Packwright.Proofs.Unambiguous
import Packwright.Proofs.Untyped
import Packwright.Proofs.Verdict
import Packwright.Proofs.WellFormed
import Packwright.Proofs.Zids
import Packwright.RunError
import Packwright.Schema
import Packwright.Script
import Packwright.Settings
import Packwright.Settings.Template
import Packwright.Shape
import Packwright.Shape.Document
import Packwright.Shape.Visit
import Packwright.Sink
import Packwright.Table
import Packwright.Text.Characters
import Packwright.Text.Decimal
import Packwright.Text.Literal
import Packwright.Text.Lossy
import Packwright.Toml
import Packwright.Toml.Lexer
import Packwright.Toml.Moment
import Packwright.Toml.Quoted
import Packwright.Toml.Reader
import Packwright.Toml.Word
import Packwright.Value
import Packwright.Wire
