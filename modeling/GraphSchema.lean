import GraphSchema.Atom
import GraphSchema.Callback
import GraphSchema.Check.Report
import GraphSchema.Check.Schema
import GraphSchema.Check.Usage
import GraphSchema.Failure
import GraphSchema.Node.Basic
import GraphSchema.Node.Builder
import GraphSchema.Node.Call
import GraphSchema.Node.Children
import GraphSchema.Node.Directive
import GraphSchema.Node.Edit
import GraphSchema.Node.Equality
import GraphSchema.Node.Fault
import GraphSchema.Node.Kind
import GraphSchema.Node.Printer
import GraphSchema.Node.Record
import GraphSchema.Node.Visitor
import GraphSchema.Number.Binary64
import GraphSchema.Number.Decimal
import GraphSchema.Number.Integer
import GraphSchema.Number.Shortest
import GraphSchema.Parser.Basic
import GraphSchema.Parser.Definition
import GraphSchema.Parser.Document
import GraphSchema.Parser.Type
import GraphSchema.Parser.Value
import GraphSchema.Pattern
import GraphSchema.Pattern.Reader
import GraphSchema.Problem
import GraphSchema.Problem.Parts
import GraphSchema.Proofs.Check.Argument
import GraphSchema.Proofs.Check.Coercion
import GraphSchema.Proofs.Check.Comparison
import GraphSchema.Proofs.Check.Conforms
import GraphSchema.Proofs.Check.Congruence
import GraphSchema.Proofs.Check.Definition
import GraphSchema.Proofs.Check.Directive
import GraphSchema.Proofs.Check.Fault
import GraphSchema.Proofs.Check.Inline
import GraphSchema.Proofs.Check.Match
import GraphSchema.Proofs.Check.Mirror
import GraphSchema.Proofs.Check.Mirror.Directive
import GraphSchema.Proofs.Check.Mirror.Schema
import GraphSchema.Proofs.Check.Mirror.Value
import GraphSchema.Proofs.Check.Names
import GraphSchema.Proofs.Check.Onto
import GraphSchema.Proofs.Check.Owner
import GraphSchema.Proofs.Check.Placement
import GraphSchema.Proofs.Check.Relaxed
import GraphSchema.Proofs.Check.Report
import GraphSchema.Proofs.Check.Skipped
import GraphSchema.Proofs.Check.Traversal
import GraphSchema.Proofs.Check.Use
import GraphSchema.Proofs.Check.Value
import GraphSchema.Proofs.Grammar.Basic
import GraphSchema.Proofs.Grammar.Node
import GraphSchema.Proofs.Grammar.Viable
import GraphSchema.Proofs.Grammar.WellTyped
import GraphSchema.Proofs.Node.Attribute
import GraphSchema.Proofs.Node.Builder
import GraphSchema.Proofs.Node.Call
import GraphSchema.Proofs.Node.Constituent
import GraphSchema.Proofs.Node.Formed
import GraphSchema.Proofs.Node.Lens
import GraphSchema.Proofs.Node.Parts
import GraphSchema.Proofs.Node.Plain
import GraphSchema.Proofs.Node.Record
import GraphSchema.Proofs.Node.Relabel
import GraphSchema.Proofs.Node.Slots
import GraphSchema.Proofs.Node.Transform
import GraphSchema.Proofs.Node.Tree
import GraphSchema.Proofs.Node.Unplaced
import GraphSchema.Proofs.Node.Visitor
import GraphSchema.Proofs.Node.WellTyped
import GraphSchema.Proofs.Number.Binary64
import GraphSchema.Proofs.Number.Integer
import GraphSchema.Proofs.Parser.Blame
import GraphSchema.Proofs.Parser.Contents
import GraphSchema.Proofs.Parser.Cursor
import GraphSchema.Proofs.Parser.Cut
import GraphSchema.Proofs.Parser.Definition
import GraphSchema.Proofs.Parser.Document
import GraphSchema.Proofs.Parser.Extent
import GraphSchema.Proofs.Parser.Location
import GraphSchema.Proofs.Parser.Member
import GraphSchema.Proofs.Parser.Name
import GraphSchema.Proofs.Parser.Origin
import GraphSchema.Proofs.Parser.Reading
import GraphSchema.Proofs.Parser.Repetition
import GraphSchema.Proofs.Parser.Segment
import GraphSchema.Proofs.Parser.Sequence
import GraphSchema.Proofs.Parser.Setting
import GraphSchema.Proofs.Parser.Settled
import GraphSchema.Proofs.Parser.Spacing
import GraphSchema.Proofs.Parser.Steady
import GraphSchema.Proofs.Parser.Twin
import GraphSchema.Proofs.Parser.Twin.Definition
import GraphSchema.Proofs.Parser.Twin.Document
import GraphSchema.Proofs.Parser.Twin.Member
import GraphSchema.Proofs.Parser.Twin.Value
import GraphSchema.Proofs.Parser.Type
import GraphSchema.Proofs.Parser.Value
import GraphSchema.Proofs.Parser.Whole
import GraphSchema.Proofs.Parser.Window
import GraphSchema.Proofs.Problem
import GraphSchema.Proofs.Registry.Extension
import GraphSchema.Proofs.Registry.First
import GraphSchema.Proofs.Registry.Inline
import GraphSchema.Proofs.Registry.Lookup
import GraphSchema.Proofs.Registry.Merge
import GraphSchema.Proofs.Registry.Order
import GraphSchema.Proofs.Registry.Placement
import GraphSchema.Proofs.Registry.Relabel
import GraphSchema.Proofs.Registry.Step
import GraphSchema.Proofs.Registry.Walk
import GraphSchema.Proofs.Registry.WellTyped
import GraphSchema.Proofs.Scalar.Blind
import GraphSchema.Proofs.Scalar.Number
import GraphSchema.Proofs.Scalar.Rejection
import GraphSchema.Proofs.Setting
import GraphSchema.Proofs.Source.Address
import GraphSchema.Proofs.Source.Display
import GraphSchema.Proofs.Source.Excerpt
import GraphSchema.Proofs.Source.Line
import GraphSchema.Proofs.SyntaxError
import GraphSchema.Proofs.Table
import GraphSchema.Proofs.Text.Block
import GraphSchema.Proofs.Text.BlockValue
import GraphSchema.Proofs.Text.Hexadecimal
import GraphSchema.Proofs.Token.Accepts
import GraphSchema.Proofs.Token.Ahead
import GraphSchema.Proofs.Token.Character
import GraphSchema.Proofs.Token.Cut
import GraphSchema.Proofs.Token.Delivery
import GraphSchema.Proofs.Token.Last
import GraphSchema.Proofs.Token.Layout
import GraphSchema.Proofs.Token.Local
import GraphSchema.Proofs.Token.Lossless
import GraphSchema.Proofs.Token.Name
import GraphSchema.Proofs.Token.Number
import GraphSchema.Proofs.Token.Numeral
import GraphSchema.Proofs.Token.Order
import GraphSchema.Proofs.Token.Place
import GraphSchema.Proofs.Token.Position
import GraphSchema.Proofs.Token.Progress
import GraphSchema.Proofs.Token.Quoted
import GraphSchema.Proofs.Token.Reached
import GraphSchema.Proofs.Token.Step
import GraphSchema.Proofs.Token.String
import GraphSchema.Proofs.Token.StringLiteral
import GraphSchema.Proofs.Validation
import GraphSchema.Proofs.Wiring
import GraphSchema.Registry
import GraphSchema.Registry.Walk
import GraphSchema.Scalar.Basic
import GraphSchema.Scalar.Identifier
import GraphSchema.Scalar.Number
import GraphSchema.Source.Excerpt
import GraphSchema.Source.Line
import GraphSchema.SyntaxError
import GraphSchema.Table
import GraphSchema.Text.Alphanumeric
import GraphSchema.Text.Basic
import GraphSchema.Text.Blank
import GraphSchema.Text.Block
import GraphSchema.Text.Case
import GraphSchema.Text.Digit
import GraphSchema.Text.Margin
import GraphSchema.Text.Printable
import GraphSchema.Text.Quoted
import GraphSchema.Text.Sigma
import GraphSchema.Token
import GraphSchema.Token.Lexer
import GraphSchema.Validation
import GraphSchema.Wiring
