import ListQuery.Check
import ListQuery.Condition.Apply
import ListQuery.Condition.CallLog
import ListQuery.Condition.Operators
import ListQuery.Condition.Recorder
import ListQuery.Condition.Reference
import ListQuery.Condition.Token
import ListQuery.Decimal.Binary64
import ListQuery.Decimal.Shortest
import ListQuery.Diagnostic.Event
import ListQuery.Diagnostic.Report
import ListQuery.Diagnostic.Verbosity
import ListQuery.Filter.Basic
import ListQuery.Filter.Builder
import ListQuery.Filter.Constraint
import ListQuery.Filter.Inspect
import ListQuery.Filter.Wire
import ListQuery.Json.Literal
import ListQuery.Json.Numeral
import ListQuery.Json.Printer
import ListQuery.Json.Reader
import ListQuery.Json.Record
import ListQuery.Json.Value
import ListQuery.KeyMap
import ListQuery.Main
import ListQuery.Proofs.Condition.Apply
import ListQuery.Proofs.Condition.BuiltFilter
import ListQuery.Proofs.Condition.CallLog
import ListQuery.Proofs.Condition.Clauses
import ListQuery.Proofs.Condition.Combinators
import ListQuery.Proofs.Condition.Count
import ListQuery.Proofs.Condition.FilterMeaning
import ListQuery.Proofs.Condition.Formula
import ListQuery.Proofs.Condition.Meaning
import ListQuery.Proofs.Condition.Operators
import ListQuery.Proofs.Condition.Placeholders
import ListQuery.Proofs.Condition.Quotes
import ListQuery.Proofs.Condition.Reference
import ListQuery.Proofs.Condition.Traversal
import ListQuery.Proofs.Filter.Address
import ListQuery.Proofs.Filter.BuilderCalls
import ListQuery.Proofs.Filter.Canonical
import ListQuery.Proofs.Filter.Document
import ListQuery.Proofs.Filter.Grammar
import ListQuery.Proofs.Filter.Operand
import ListQuery.Proofs.Filter.OperatorObject
import ListQuery.Proofs.Filter.RoundTrip
import ListQuery.Proofs.Filter.Text
import ListQuery.Proofs.Filter.Tree
import ListQuery.Proofs.Filter.Visits
import ListQuery.Proofs.Json.Canonical
import ListQuery.Proofs.Json.Derivation
import ListQuery.Proofs.Json.Extent
import ListQuery.Proofs.Json.Grammar
import ListQuery.Proofs.Json.Literal
import ListQuery.Proofs.Json.Members
import ListQuery.Proofs.Json.Numeral
import ListQuery.Proofs.Json.Rendering
import ListQuery.Proofs.Json.Reread
import ListQuery.Proofs.Relation.Agreement
import ListQuery.Proofs.Relation.AtLevel
import ListQuery.Proofs.Relation.Balance
import ListQuery.Proofs.Relation.ByteReading
import ListQuery.Proofs.Relation.ByteScan
import ListQuery.Proofs.Relation.Cover
import ListQuery.Proofs.Relation.Depth
import ListQuery.Proofs.Relation.Embedded
import ListQuery.Proofs.Relation.ErrorPosition
import ListQuery.Proofs.Relation.Faultless
import ListQuery.Proofs.Relation.FirstProblem
import ListQuery.Proofs.Relation.ForestGrammar
import ListQuery.Proofs.Relation.Grammar
import ListQuery.Proofs.Relation.Kept
import ListQuery.Proofs.Relation.Lenient
import ListQuery.Proofs.Relation.Level
import ListQuery.Proofs.Relation.Matching
import ListQuery.Proofs.Relation.ObjectExtent
import ListQuery.Proofs.Relation.OuterBraces
import ListQuery.Proofs.Relation.Outermost
import ListQuery.Proofs.Relation.PathGrammar
import ListQuery.Proofs.Relation.Position
import ListQuery.Proofs.Relation.Printable
import ListQuery.Proofs.Relation.Repair
import ListQuery.Proofs.Relation.Reprinting
import ListQuery.Proofs.Relation.RoundTrip
import ListQuery.Proofs.Relation.Siblings
import ListQuery.Proofs.Relation.WellFormed
import ListQuery.Proofs.Relation.Written
import ListQuery.Proofs.Request.Overflow
import ListQuery.Proofs.Request.PageNumbers
import ListQuery.Proofs.Request.Pages
import ListQuery.Proofs.Request.Parameters
import ListQuery.Proofs.Request.Plan
import ListQuery.Proofs.Request.RoundTrip
import ListQuery.Proofs.Text.Camel
import ListQuery.Proofs.Text.Range
import ListQuery.Relation.Accept
import ListQuery.Relation.Basic
import ListQuery.Relation.Brace
import ListQuery.Relation.Entry
import ListQuery.Relation.Forest
import ListQuery.Relation.Paths
import ListQuery.Relation.Policy
import ListQuery.Relation.Printer
import ListQuery.Relation.Problem
import ListQuery.Relation.Trail
import ListQuery.Request.Basic
import ListQuery.Request.Paging
import ListQuery.Request.Wire
import ListQuery.Sample
import ListQuery.Settings
import ListQuery.Text.Blank
import ListQuery.Text.Bytes
import ListQuery.Text.Camel
import ListQuery.Text.Capital
import ListQuery.Text.Hidden
import ListQuery.Text.Quoted
import ListQuery.Text.Split
import ListQuery.Toml.Document
import ListQuery.Toml.Lexis
import ListQuery.Toml.Scalar
import ListQuery.Toml.Table
import ListQuery.Trace
