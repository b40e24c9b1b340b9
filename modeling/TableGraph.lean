import TableGraph.Answer.Changing
import TableGraph.Answer.Complete
import TableGraph.Answer.Fetch
import TableGraph.Answer.Reading
import TableGraph.Answer.Related
import TableGraph.Answer.Request
import TableGraph.BigInteger
import TableGraph.Builder
import TableGraph.Calendar.Date
import TableGraph.Calendar.DateTime
import TableGraph.Catalogue.Discovery
import TableGraph.Catalogue.Document
import TableGraph.Catalogue.Table
import TableGraph.Codec
import TableGraph.CommandLine.Arguments
import TableGraph.CommandLine.Run
import TableGraph.Context
import TableGraph.Cursor.Basic
import TableGraph.Cursor.Key
import TableGraph.Fault
import TableGraph.Filter.Basic
import TableGraph.Filter.Family
import TableGraph.Graph.Document
import TableGraph.Graph.EntityTypes
import TableGraph.Graph.Grammar
import TableGraph.Graph.InputValue
import TableGraph.Graph.Measure
import TableGraph.Graph.Plan
import TableGraph.Graph.Printer
import TableGraph.Graph.Rules
import TableGraph.Graph.Scalar
import TableGraph.Graph.Token
import TableGraph.Graph.TypeSystem
import TableGraph.Guard
import TableGraph.Load.Batch
import TableGraph.Load.Key
import TableGraph.Main
import TableGraph.Mutation
import TableGraph.Number.Binary64
import TableGraph.Number.Decimal
import TableGraph.Number.Hexadecimal
import TableGraph.Number.Lenient
import TableGraph.Number.Numeral
import TableGraph.Order
import TableGraph.Outline.Node
import TableGraph.Outline.Token
import TableGraph.Page.Keyset
import TableGraph.Page.Request
import TableGraph.Page.Window
import TableGraph.Predicate.Basic
import TableGraph.Predicate.Sql
import TableGraph.Projection
import TableGraph.Proofs.BothWays
import TableGraph.Proofs.ByKey
import TableGraph.Proofs.Casing
import TableGraph.Proofs.CellOrder
import TableGraph.Proofs.ClientOrder
import TableGraph.Proofs.Coalesce.Alike
import TableGraph.Proofs.Coalesce.Conforming
import TableGraph.Proofs.Coalesce.FilterTypes
import TableGraph.Proofs.Coalesce.Filters
import TableGraph.Proofs.Coalesce.Numbers
import TableGraph.Proofs.Coalesce.Scopes
import TableGraph.Proofs.Coalesce.Sound
import TableGraph.Proofs.Coalesce.Wording
import TableGraph.Proofs.Commit.Atomic
import TableGraph.Proofs.Commit.Exact
import TableGraph.Proofs.Commit.OwnKeys
import TableGraph.Proofs.Commit.Paths
import TableGraph.Proofs.Commit.Resolves
import TableGraph.Proofs.Condition
import TableGraph.Proofs.Cursor.Grammar
import TableGraph.Proofs.Cursor.KeyValues
import TableGraph.Proofs.Cursor.Refusals
import TableGraph.Proofs.Cursor.Widths
import TableGraph.Proofs.CursorText
import TableGraph.Proofs.Discovered.Closing
import TableGraph.Proofs.Discovered.Correspondence
import TableGraph.Proofs.Discovered.Relations
import TableGraph.Proofs.Discovered.Tables
import TableGraph.Proofs.EntityTable
import TableGraph.Proofs.Escapes
import TableGraph.Proofs.Faults
import TableGraph.Proofs.Filter.Columns
import TableGraph.Proofs.Filter.Flat
import TableGraph.Proofs.Filter.Literal
import TableGraph.Proofs.Filter.OneType
import TableGraph.Proofs.Filter.Operands
import TableGraph.Proofs.Filter.Operators
import TableGraph.Proofs.Filter.Part
import TableGraph.Proofs.Filter.Reading
import TableGraph.Proofs.Filter.Refusals
import TableGraph.Proofs.Filter.Reorder
import TableGraph.Proofs.Filter.Trees
import TableGraph.Proofs.FloatRange
import TableGraph.Proofs.Hidden.Outcome
import TableGraph.Proofs.Hidden.Visible
import TableGraph.Proofs.Identifier
import TableGraph.Proofs.Ignored.Answer
import TableGraph.Proofs.Ignored.Loads
import TableGraph.Proofs.Ignored.Pages
import TableGraph.Proofs.Ignored.Parts
import TableGraph.Proofs.Ignored.Reply
import TableGraph.Proofs.Ignored.Rows
import TableGraph.Proofs.JsonReading
import TableGraph.Proofs.JsonText.Column
import TableGraph.Proofs.JsonText.Grammar
import TableGraph.Proofs.Lifecycle
import TableGraph.Proofs.Load.Alone
import TableGraph.Proofs.Load.Batch
import TableGraph.Proofs.Load.Groups
import TableGraph.Proofs.Load.Identity
import TableGraph.Proofs.Load.Plain
import TableGraph.Proofs.Load.Same
import TableGraph.Proofs.Load.Separate
import TableGraph.Proofs.Lossless
import TableGraph.Proofs.Measure
import TableGraph.Proofs.Orders
import TableGraph.Proofs.Outcome
import TableGraph.Proofs.Paging.Bounded
import TableGraph.Proofs.Paging.Next
import TableGraph.Proofs.Paging.Returned
import TableGraph.Proofs.Plans
import TableGraph.Proofs.References
import TableGraph.Proofs.Registered
import TableGraph.Proofs.Relations
import TableGraph.Proofs.Roots
import TableGraph.Proofs.RowOrder
import TableGraph.Proofs.Scope.Answer
import TableGraph.Proofs.Scope.Batch
import TableGraph.Proofs.Scope.Change
import TableGraph.Proofs.Scope.Kept
import TableGraph.Proofs.Scope.Page
import TableGraph.Proofs.Sealing.Check
import TableGraph.Proofs.Sealing.Fields
import TableGraph.Proofs.Sealing.Names
import TableGraph.Proofs.Sealing.Roots
import TableGraph.Proofs.Sealing.Schemas
import TableGraph.Proofs.Sealing.Strays
import TableGraph.Proofs.Sealing.Tame
import TableGraph.Proofs.Sealing.Types
import TableGraph.Proofs.Sealing.Validity
import TableGraph.Proofs.Selection
import TableGraph.Proofs.TotalOrder
import TableGraph.Proofs.Transaction
import TableGraph.Proofs.Upheld
import TableGraph.Proofs.Walk.Anchor
import TableGraph.Proofs.Walk.Complete
import TableGraph.Proofs.Walk.Cursor
import TableGraph.Proofs.Walk.Key
import TableGraph.Proofs.Walk.Keyset
import TableGraph.Proofs.Walk.Lexicographic
import TableGraph.Proofs.Walk.Page
import TableGraph.Proofs.Walk.Place
import TableGraph.Proofs.Walk.Restored
import TableGraph.Proofs.Walk.Run
import TableGraph.Proofs.WideInteger
import TableGraph.Proofs.Window.Agree
import TableGraph.Proofs.Window.Arithmetic
import TableGraph.Proofs.Window.Behind
import TableGraph.Proofs.Window.Counted
import TableGraph.Proofs.Window.Partition
import TableGraph.Proofs.Words
import TableGraph.Proofs.Writable
import TableGraph.Proofs.Written.Calendar
import TableGraph.Proofs.Written.Decimal
import TableGraph.Proofs.Written.Digits
import TableGraph.Proofs.Written.Key
import TableGraph.Proofs.Written.Value
import TableGraph.Query.Page
import TableGraph.Sample.Basic
import TableGraph.Sample.Film
import TableGraph.Sample.Filtered
import TableGraph.Sample.Notes
import TableGraph.Sample.Registered
import TableGraph.Sample.Types
import TableGraph.Schema.ColumnType
import TableGraph.Schema.Entity
import TableGraph.Schema.SqlType
import TableGraph.Schema.Validation
import TableGraph.Service.AccessLog
import TableGraph.Service.Application
import TableGraph.Service.Engine
import TableGraph.Settings
import TableGraph.Store.Basic
import TableGraph.Store.Binding
import TableGraph.Store.Cell
import TableGraph.Store.Condition
import TableGraph.Store.Table
import TableGraph.Text.Character
import TableGraph.Text.Quoted
import TableGraph.Text.Template
import TableGraph.Text.UpperCase
import TableGraph.Text.Words
import TableGraph.Transaction
import TableGraph.Value.Basic
import TableGraph.Value.Json
import TableGraph.Value.Shown
import TableGraph.Value.Uuid
