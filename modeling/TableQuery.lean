import TableQuery.Function.Window
import TableQuery.Language.Canonical
import TableQuery.Proofs.Evaluation.Clauses
import TableQuery.Proofs.Evaluation.Sources
import TableQuery.Session.Engine
import TableQuery.Value.Json
import TableQuery.Value.RowKey
import TableQuery.Proofs.Evaluation.Meaning
import TableQuery.Proofs.Evaluation.Frame
import TableQuery.Proofs.Join.Chunks
import TableQuery.Proofs.Join.Tasks
import TableQuery.Proofs.Table.Rectangular
import TableQuery.Proofs.Table.Growth
import TableQuery.Proofs.Evaluation.Growth
import TableQuery.Proofs.Evaluation.WellFormed
import TableQuery.Proofs.Evaluation.Flat
import TableQuery.Proofs.Evaluation.SortColumns
import TableQuery.Proofs.Evaluation.Rows
import TableQuery.Proofs.Table.Lookup
import TableQuery.Proofs.Evaluation.Computed
import TableQuery.Proofs.Evaluation.Aggregates
import TableQuery.Proofs.Evaluation.Grouping
import TableQuery.Proofs.Table.Multiplicity
import TableQuery.Proofs.Table.Sorting
import TableQuery.Proofs.Number.FloatOrder
import TableQuery.Proofs.Value.SortKey
import TableQuery.Proofs.Value.RowKey
import TableQuery.Proofs.Value.KeyEquality
import TableQuery.Proofs.Value.SortComparison
import TableQuery.Proofs.Evaluation.Order
import TableQuery.Proofs.Evaluation.Stored
import TableQuery.Proofs.Evaluation.RowCounts
import TableQuery.Proofs.Evaluation.ImplicitGroup
import TableQuery.Proofs.Number.Reading
import TableQuery.Proofs.Value.Equivalence
import TableQuery.Proofs.Evaluation.Partition
import TableQuery.Proofs.Join.PairedColumns
import TableQuery.Proofs.Text.Upper
import TableQuery.Proofs.Evaluation.Fields
import TableQuery.Proofs.Evaluation.WindowAggregates
import TableQuery.Proofs.Evaluation.FieldIndependence
import TableQuery.Proofs.Syntax.Precedence
import TableQuery.Proofs.Syntax.Consumption
import TableQuery.Proofs.Syntax.Clauses
import TableQuery.Proofs.Syntax.Queries
import TableQuery.Proofs.Syntax.Results
import TableQuery.Proofs.Evaluation.Recursion
import TableQuery.Proofs.Evaluation.RecursiveClauses
import TableQuery.Proofs.Session.CursorActions
import TableQuery.Proofs.Session.CursorHistory
import TableQuery.Proofs.Session.FailedRequests
import TableQuery.Proofs.Session.Sharing
import TableQuery.Proofs.Syntax.RoundTrip
import TableQuery.Proofs.Evaluation.GroupKeys
import TableQuery.Proofs.Join.Assignments
import TableQuery.Proofs.Join.Failures
import TableQuery.Proofs.Session.SyntaxErrors
import TableQuery.Proofs.Evaluation.TableNames
import TableQuery.Proofs.Session.DerivedTables
import TableQuery.Proofs.Evaluation.DirectAggregates
import TableQuery.Proofs.Syntax.Identity
import TableQuery.Proofs.Evaluation.CanonicalText
import TableQuery.Proofs.Value.Exchange
import TableQuery.Proofs.Value.RowComparison
import TableQuery.Proofs.Value.Like
import TableQuery.Proofs.Evaluation.Counting
import TableQuery.Proofs.Evaluation.Predicates
import TableQuery.Proofs.Value.KeyTuples
import TableQuery.Proofs.Syntax.Cuts
import TableQuery.Proofs.Syntax.Slicing
import TableQuery.Proofs.Evaluation.Slices
import TableQuery.Proofs.Function.Tiles
import TableQuery.Proofs.Function.PeerRuns
import TableQuery.Proofs.Evaluation.WindowRoutines
import TableQuery.Proofs.Evaluation.WindowCalls
import TableQuery.Proofs.Function.Extremes
import TableQuery.Proofs.Value.Transitivity
import TableQuery.Proofs.Session.CursorTargets
import TableQuery.Proofs.Join.NaturalTables
import TableQuery.Proofs.Syntax.InnerOrder
import TableQuery.Proofs.Evaluation.ListWindows
import TableQuery.Proofs.Session.NameMatching
import TableQuery.Proofs.Calendar.Days
import TableQuery.Proofs.Calendar.Rereading
import TableQuery.Proofs.Syntax.Positions
import TableQuery.Proofs.Syntax.TextLiterals
import TableQuery.Proofs.Table.Stability
import TableQuery.Proofs.Number.Whole
import TableQuery.Proofs.Function.Rounding
import TableQuery.Proofs.Function.IntegerCast
import TableQuery.Proofs.Calendar.ZoneTexts
import TableQuery.Proofs.Function.Distinct
import TableQuery.Proofs.Syntax.Places
import TableQuery.Proofs.Syntax.Routines
import TableQuery.Proofs.Syntax.Depth
import TableQuery.Proofs.Syntax.Progress
