import EntityQuery.Calendar.Date
import EntityQuery.Calendar.Instant
import EntityQuery.Calendar.Timestamp
import EntityQuery.CommandLine.Arguments
import EntityQuery.CommandLine.Run
import EntityQuery.Compile.Error
import EntityQuery.Compile.Options
import EntityQuery.Compile.Request
import EntityQuery.Compile.Target
import EntityQuery.Condition.Connective
import EntityQuery.Condition.Expression
import EntityQuery.Condition.Operand
import EntityQuery.Condition.Pattern
import EntityQuery.Condition.Traced
import EntityQuery.Document.Extended
import EntityQuery.Document.Value
import EntityQuery.FieldPath
import EntityQuery.Json.Number
import EntityQuery.Json.Reader
import EntityQuery.Json.Tree
import EntityQuery.Json.Writer
import EntityQuery.Numeric.Binary64
import EntityQuery.Numeric.Decimal
import EntityQuery.Numeric.Layout
import EntityQuery.Numeric.Nearest
import EntityQuery.Numeric.Shortest
import EntityQuery.Plan.Basic
import EntityQuery.Plan.Outcome
import EntityQuery.Plan.Read
import EntityQuery.Proofs.Compile.Projection
import EntityQuery.Proofs.Compile.Root
import EntityQuery.Proofs.Condition.Agreement
import EntityQuery.Proofs.Condition.Literal
import EntityQuery.Proofs.Condition.Meaning
import EntityQuery.Proofs.Condition.Merge
import EntityQuery.Proofs.Condition.PatternReading
import EntityQuery.Proofs.Condition.Traced
import EntityQuery.Proofs.Condition.Truth
import EntityQuery.Proofs.Condition.Yields
import EntityQuery.Proofs.Condition.Parts
import EntityQuery.Proofs.Condition.Values
import EntityQuery.Proofs.Condition.Grammar
import EntityQuery.Proofs.Condition.Gathered
import EntityQuery.Proofs.Condition.Bracketing
import EntityQuery.Proofs.Document.Entries
import EntityQuery.Proofs.FieldPath.Covering
import EntityQuery.Proofs.FieldPath.Dotted
import EntityQuery.Proofs.Plan.Growth
import EntityQuery.Proofs.Plan.Joins
import EntityQuery.Proofs.Plan.Outcome
import EntityQuery.Proofs.Plan.Projected
import EntityQuery.Proofs.Plan.Selection
import EntityQuery.Proofs.Store.Record
import EntityQuery.Proofs.Store.Run
import EntityQuery.Stage
import EntityQuery.Syntax.Build
import EntityQuery.Syntax.Decode
import EntityQuery.Syntax.DecodeError
import EntityQuery.Syntax.Encode
import EntityQuery.Syntax.Literal
import EntityQuery.Syntax.Node
import EntityQuery.Syntax.Operator
import EntityQuery.Syntax.Reader
import EntityQuery.Syntax.Schema
import EntityQuery.Text.Blank
import EntityQuery.Text.Extending
import EntityQuery.Text.Ignorable
import EntityQuery.Text.Numeral
import EntityQuery.Text.Printable
import EntityQuery.Text.Quoted
import EntityQuery.Text.Split
import EntityQuery.Main
import EntityQuery.Proofs.Store.FindPipeline
import EntityQuery.Proofs.Store.Marks
import EntityQuery.Proofs.Condition.Rewriting
import EntityQuery.Proofs.Condition.Built
import EntityQuery.Proofs.Condition.Normal
import EntityQuery.Proofs.Condition.NamesRead
import EntityQuery.Proofs.Plan.Filter
import EntityQuery.Proofs.Condition.Shape
import EntityQuery.Proofs.Condition.Below
import EntityQuery.Proofs.Plan.Below
import EntityQuery.Proofs.Plan.Narrowing
import EntityQuery.Proofs.Plan.Consistency
import EntityQuery.Proofs.Compile.Narrowing
import EntityQuery.Proofs.Condition.Modifiers
import EntityQuery.Proofs.Condition.IgnoreCase
import EntityQuery.Proofs.Plan.Options
import EntityQuery.Proofs.Compile.Options
import EntityQuery.Proofs.Json.Grammar
import EntityQuery.Proofs.Json.Reading
import EntityQuery.Proofs.Text.Numeral
import EntityQuery.Proofs.Numeric.Magnitude
import EntityQuery.Proofs.Numeric.Shortest
import EntityQuery.Proofs.Numeric.Layout
import EntityQuery.Proofs.Numeric.Rounding
import EntityQuery.Proofs.Json.Double
import EntityQuery.Proofs.Numeric.Decimal
import EntityQuery.Proofs.Json.Writing
import EntityQuery.Proofs.Document.Denotation
import EntityQuery.Proofs.Json.Members
import EntityQuery.Proofs.Syntax.Decoding
import EntityQuery.Proofs.Syntax.RootReading
import EntityQuery.Proofs.Syntax.RoundTrip
import EntityQuery.Proofs.Plan.Sequences
import EntityQuery.Proofs.Plan.Failure
import EntityQuery.Proofs.Compile.Gathering
import EntityQuery.Proofs.Compile.Interleaving
import EntityQuery.Proofs.Compile.Targets
import EntityQuery.Proofs.Compile.Preorder
import EntityQuery.Proofs.Compile.Apart
import EntityQuery.Proofs.Condition.Identifiers
import EntityQuery.Proofs.Condition.PatternMatching
import EntityQuery.Proofs.Condition.Searches
import EntityQuery.Proofs.Compile.Kept
import EntityQuery.Proofs.Plan.Topmost
import EntityQuery.Proofs.FieldPath.MemberPath
import EntityQuery.Proofs.Calendar.DayNumber
import EntityQuery.Proofs.Calendar.Moment
import EntityQuery.Proofs.Calendar.Timestamp
import EntityQuery.Proofs.Calendar.Rendering
import EntityQuery.Proofs.Calendar.DateReading
import EntityQuery.Proofs.Condition.Negation
import EntityQuery.Proofs.Plan.Paging
import EntityQuery.Proofs.Compile.Counts
