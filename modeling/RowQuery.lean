import RowQuery.Accumulator
import RowQuery.AggregateFunction
import RowQuery.Binary64.Exact
import RowQuery.Binary64.Shortest
import RowQuery.Binary64.Text
import RowQuery.CommandLine
import RowQuery.CommandLine.Arguments
import RowQuery.Cursor
import RowQuery.Decimal
import RowQuery.Decimal.Numeral
import RowQuery.Expression
import RowQuery.Expression.Inspection
import RowQuery.Expression.Printer
import RowQuery.Fault
import RowQuery.FloatBits
import RowQuery.Formats
import RowQuery.Formats.Standard
import RowQuery.Grouping
import RowQuery.Grouping.Index
import RowQuery.Grouping.Parity
import RowQuery.Integer64
import RowQuery.Json
import RowQuery.Json.Lines
import RowQuery.Json.Printer
import RowQuery.Json.Reader
import RowQuery.Json.Rows
import RowQuery.Main
import RowQuery.Name
import RowQuery.Parser
import RowQuery.Parser.Item
import RowQuery.Parser.Lookahead
import RowQuery.Parser.Scan
import RowQuery.Position
import RowQuery.Progress
import RowQuery.Projection
import RowQuery.Proofs.Binary64.Nonfinite
import RowQuery.Proofs.Binary64.Real
import RowQuery.Proofs.Binary64.Rounding
import RowQuery.Proofs.Binary64.Span
import RowQuery.Proofs.Binary64.Text
import RowQuery.Proofs.CommandLine
import RowQuery.Proofs.CommandLine.Arguments
import RowQuery.Proofs.Cursor
import RowQuery.Proofs.Decimal.Numeral
import RowQuery.Proofs.Fault
import RowQuery.Proofs.FloatBits
import RowQuery.Proofs.Grammar
import RowQuery.Proofs.Grammar.Lookahead
import RowQuery.Proofs.Grouping
import RowQuery.Proofs.Grouping.Ids
import RowQuery.Proofs.Json.Lines
import RowQuery.Proofs.Json.Rows
import RowQuery.Proofs.Parser.Acceptance
import RowQuery.Proofs.Parser.Calls
import RowQuery.Proofs.Parser.Comma
import RowQuery.Proofs.Parser.Faults
import RowQuery.Proofs.Parser.Keywords
import RowQuery.Proofs.Parser.Locality
import RowQuery.Proofs.Parser.Lockstep
import RowQuery.Proofs.Parser.Operands
import RowQuery.Proofs.Parser.Permissive
import RowQuery.Proofs.Parser.Rewinding
import RowQuery.Proofs.Parser.Sequence
import RowQuery.Proofs.Parser.Strict
import RowQuery.Proofs.Position
import RowQuery.Proofs.Printer.Names
import RowQuery.Proofs.Printer.Permissive
import RowQuery.Proofs.Printer.RoundTrip
import RowQuery.Proofs.Progress.Columns
import RowQuery.Proofs.Progress.Distinct
import RowQuery.Proofs.Progress.Each
import RowQuery.Proofs.Progress.Merge
import RowQuery.Proofs.Progress.Run
import RowQuery.Proofs.Progress.Scope
import RowQuery.Proofs.Progress.Table
import RowQuery.Proofs.Row
import RowQuery.Proofs.Row.Order
import RowQuery.Proofs.SelectItem.Average
import RowQuery.Proofs.SelectItem.Extremum
import RowQuery.Proofs.SelectItem.Fault
import RowQuery.Proofs.SelectItem.Finish
import RowQuery.Proofs.SelectItem.Place
import RowQuery.Proofs.SelectItem.Reached
import RowQuery.Proofs.SelectItem.Result
import RowQuery.Proofs.SelectItem.Sum
import RowQuery.Proofs.SelectList.Coercion
import RowQuery.Proofs.SelectList.Counting
import RowQuery.Proofs.SelectList.Distinct
import RowQuery.Proofs.SelectList.DistinctCount
import RowQuery.Proofs.SelectList.Extremum
import RowQuery.Proofs.SelectList.Faults
import RowQuery.Proofs.SelectList.Grouped
import RowQuery.Proofs.SelectList.History
import RowQuery.Proofs.SelectList.Projection
import RowQuery.Proofs.SelectList.RowCount
import RowQuery.Proofs.SelectList.Run
import RowQuery.Proofs.SelectList.Single
import RowQuery.Proofs.SelectList.Sum
import RowQuery.Proofs.Timestamp
import RowQuery.Proofs.Value.Comparison
import RowQuery.Proofs.Value.Exactness
import RowQuery.Proofs.Value.Hash
import RowQuery.Proofs.Value.Order
import RowQuery.Proofs.Value.Sameness
import RowQuery.Quantity
import RowQuery.ResultSet
import RowQuery.Row
import RowQuery.SelectList
import RowQuery.Settings
import RowQuery.Table
import RowQuery.Text.Blank
import RowQuery.Text.Width
import RowQuery.Timestamp
import RowQuery.Timestamp.Text
import RowQuery.Value
import RowQuery.Value.Hash
import RowQuery.Value.Number
import RowQuery.Value.Order
import RowQuery.Value.Text
