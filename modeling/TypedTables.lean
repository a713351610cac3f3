import TypedTables.Affinity
import TypedTables.Batch
import TypedTables.Calendar.Date
import TypedTables.Calendar.DateTime
import TypedTables.Calendar.Iso
import TypedTables.Calendar.Reading
import TypedTables.Calendar.UnixReal
import TypedTables.Config.Basic
import TypedTables.Config.Json
import TypedTables.Duration
import TypedTables.Engine.Catalog
import TypedTables.Engine.Collation
import TypedTables.Engine.Command
import TypedTables.Engine.Connection
import TypedTables.Engine.Expr
import TypedTables.Engine.Fault
import TypedTables.Engine.Interface
import TypedTables.Engine.Numeral
import TypedTables.Engine.Order
import TypedTables.Engine.Plan
import TypedTables.Engine.Query
import TypedTables.Engine.Reader
import TypedTables.Engine.Reference
import TypedTables.Engine.Settings
import TypedTables.Engine.Store
import TypedTables.Engine.Token
import TypedTables.Error
import TypedTables.Example.Codecs
import TypedTables.Example.Records
import TypedTables.Example.Tables
import TypedTables.Executor
import TypedTables.Job
import TypedTables.Json.Decode
import TypedTables.Json.Fault
import TypedTables.Json.Parser
import TypedTables.Json.Printer
import TypedTables.Json.Skip
import TypedTables.Json.Token
import TypedTables.Json.Value
import TypedTables.Keyed
import TypedTables.Maintenance
import TypedTables.Number.Binary64
import TypedTables.Number.Decimal
import TypedTables.Number.Layout
import TypedTables.Pool.Admission
import TypedTables.Pool.Basic
import TypedTables.Pool.Schedule
import TypedTables.Pool.Ticket
import TypedTables.Proofs.AcceptedClauses
import TypedTables.Proofs.BatchRequests
import TypedTables.Proofs.BatchesInTurn
import TypedTables.Proofs.BegunJobs
import TypedTables.Proofs.BoundNames
import TypedTables.Proofs.BuildTimeErrors
import TypedTables.Proofs.Building
import TypedTables.Proofs.CacheRequests
import TypedTables.Proofs.CalendarDays
import TypedTables.Proofs.CallerWaits
import TypedTables.Proofs.ClauseBytes
import TypedTables.Proofs.ClauseQuotes
import TypedTables.Proofs.ClauseVariables
import TypedTables.Proofs.ClosedDomains
import TypedTables.Proofs.ClosedPools
import TypedTables.Proofs.ColumnSets
import TypedTables.Proofs.ConfigTexts
import TypedTables.Proofs.ConnectionTransactions
import TypedTables.Proofs.CreatedObjects
import TypedTables.Proofs.DeclaredColumns
import TypedTables.Proofs.DeclaredStatements
import TypedTables.Proofs.DecodedRows
import TypedTables.Proofs.DeletedRows
import TypedTables.Proofs.DigitTexts
import TypedTables.Proofs.DirectResults
import TypedTables.Proofs.DrainedPools
import TypedTables.Proofs.Encoding
import TypedTables.Proofs.Errands
import TypedTables.Proofs.FieldRoundTrips
import TypedTables.Proofs.FilterConditions
import TypedTables.Proofs.FilterTerms
import TypedTables.Proofs.FirstSelected
import TypedTables.Proofs.InsertedRows
import TypedTables.Proofs.JobAnswers
import TypedTables.Proofs.JobCourses
import TypedTables.Proofs.JobYields
import TypedTables.Proofs.JsonDepth
import TypedTables.Proofs.JsonNumbers
import TypedTables.Proofs.JsonReals
import TypedTables.Proofs.JsonStrings
import TypedTables.Proofs.JsonTexts
import TypedTables.Proofs.Keyed
import TypedTables.Proofs.LiteralTokens
import TypedTables.Proofs.MembershipLists
import TypedTables.Proofs.OptionalTypes
import TypedTables.Proofs.PageQueries
import TypedTables.Proofs.PagedContent
import TypedTables.Proofs.Paging
import TypedTables.Proofs.Params
import TypedTables.Proofs.PoolAccounts
import TypedTables.Proofs.PoolHistory
import TypedTables.Proofs.PushedNames
import TypedTables.Proofs.ReadableStatements
import TypedTables.Proofs.RecordedRequests
import TypedTables.Proofs.RepeatedBootstraps
import TypedTables.Proofs.ResultLists
import TypedTables.Proofs.ResultPositions
import TypedTables.Proofs.RewrittenValues
import TypedTables.Proofs.RoundedValues
import TypedTables.Proofs.Rounding
import TypedTables.Proofs.RowStreams
import TypedTables.Proofs.ScannedTexts
import TypedTables.Proofs.SchemaLookups
import TypedTables.Proofs.SchemaOrder
import TypedTables.Proofs.SelectionLimits
import TypedTables.Proofs.ShapedTexts
import TypedTables.Proofs.ShortestDecimals
import TypedTables.Proofs.SingleWorkers
import TypedTables.Proofs.StatementParts
import TypedTables.Proofs.StatementPlaceholders
import TypedTables.Proofs.StatementWords
import TypedTables.Proofs.StoredRows
import TypedTables.Proofs.SubmissionDeadlines
import TypedTables.Proofs.TextOrder
import TypedTables.Proofs.TicketSteps
import TypedTables.Proofs.TimestampColumns
import TypedTables.Proofs.TimestampOrder
import TypedTables.Proofs.TimestampTexts
import TypedTables.Proofs.Transactions
import TypedTables.Proofs.UndisturbedJobs
import TypedTables.Proofs.UnixSeconds
import TypedTables.Proofs.UntypedValues
import TypedTables.Proofs.UpdatePairs
import TypedTables.Proofs.UpdateSides
import TypedTables.Proofs.WorkerSteps
import TypedTables.Record.Basic
import TypedTables.Record.Decode
import TypedTables.Record.Encode
import TypedTables.Record.Params
import TypedTables.Row
import TypedTables.Schema.Basic
import TypedTables.Schema.Column
import TypedTables.Schema.Domain
import TypedTables.Schema.FieldType
import TypedTables.Schema.Lookups
import TypedTables.Schema.Registry
import TypedTables.Shared
import TypedTables.Statement.Basic
import TypedTables.Statement.Cache
import TypedTables.Statement.Clause
import TypedTables.Statement.Requests
import TypedTables.Statement.Shape
import TypedTables.Statement.TableName
import TypedTables.Statement.Text
import TypedTables.Table.Basic
import TypedTables.Table.Create
import TypedTables.Table.Filter
import TypedTables.Table.Insert
import TypedTables.Table.Raw
import TypedTables.Table.Select
import TypedTables.Table.Update
import TypedTables.Text.Blank
import TypedTables.Text.Combining
import TypedTables.Text.Identifier
import TypedTables.Text.Lexemes
import TypedTables.Text.Quoted
import TypedTables.Text.Unprintable
import TypedTables.Value
