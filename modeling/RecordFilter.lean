import RecordFilter.Declaration.Basic
import RecordFilter.Failure
import RecordFilter.Filter.Json
import RecordFilter.Filter.Written
import RecordFilter.Query.Json
import RecordFilter.Query.Statement
import RecordFilter.Record.Document
import RecordFilter.Proofs.Query.Clauses
import RecordFilter.Proofs.Expression.Levels
import RecordFilter.Proofs.Query.Agreement
import RecordFilter.Proofs.Sql.Grammar
import RecordFilter.Proofs.Sql.Reading
import RecordFilter.Proofs.Query.Tenant
import RecordFilter.Proofs.Expression.Scan
import RecordFilter.Proofs.Expression.Split
import RecordFilter.Proofs.Expression.Parts
import RecordFilter.Proofs.Filter.Legible
import RecordFilter.Proofs.Filter.ReadBack
import RecordFilter.Proofs.Filter.RoundTrip
import RecordFilter.Proofs.Expression.Pairing
import RecordFilter.Proofs.Expression.Pieces
import RecordFilter.Proofs.Filter.Reading
import RecordFilter.Proofs.Filter.Expressible
import RecordFilter.Proofs.Scalar.Native
import RecordFilter.Proofs.Query.Meaning
import RecordFilter.Proofs.Sql.Placeholders
import RecordFilter.Proofs.Sql.Pattern
import RecordFilter.Proofs.Query.EmptyGroups
import RecordFilter.Proofs.Number.Rounding
import RecordFilter.Proofs.Number.Value
import RecordFilter.Proofs.Number.Literals
import RecordFilter.Proofs.Scalar.Operators
import RecordFilter.Proofs.Scalar.Ranges
import RecordFilter.Proofs.Number.Layout
import RecordFilter.Proofs.Scalar.Coherence
import RecordFilter.Proofs.Query.Readiness
import RecordFilter.Proofs.Schema.Catalog
import RecordFilter.Proofs.Declaration.Readings
import RecordFilter.Proofs.Schema.Runs
import RecordFilter.Proofs.Filter.Shipping
import RecordFilter.Proofs.Expression.Conditions
import RecordFilter.Proofs.Expression.Tiling
import RecordFilter.Proofs.Expression.Assembly
import RecordFilter.Proofs.Filter.Composition
import RecordFilter.Proofs.Json.Numbers
import RecordFilter.Proofs.Query.Shipping
import RecordFilter.Proofs.Query.Regrouping
import RecordFilter.Proofs.Filter.Order
import RecordFilter.Proofs.Query.Refusals
import RecordFilter.Proofs.Record.Reports
import RecordFilter.Proofs.Query.Leaves
import RecordFilter.Proofs.Record.Selection
import RecordFilter.Proofs.Record.Nulls
import RecordFilter.Proofs.Filter.Bare
import RecordFilter.Proofs.Filter.Places
import RecordFilter.Proofs.Record.Paths
import RecordFilter.Proofs.Text.Slices
import RecordFilter.Proofs.Expression.Offsets
import RecordFilter.Proofs.Declaration.TypePaths
import RecordFilter.Proofs.Declaration.Exposing
