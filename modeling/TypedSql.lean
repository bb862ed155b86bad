import TypedSql.Catalog.Basic
import TypedSql.Catalog.Column
import TypedSql.Catalog.Error
import TypedSql.Catalog.Index
import TypedSql.CommandLine.Arguments
import TypedSql.CommandLine.Session
import TypedSql.Compile.Error
import TypedSql.Connection.Basic
import TypedSql.Connection.Cooldown
import TypedSql.Connection.Error
import TypedSql.Connection.LinkOption
import TypedSql.Connection.Pool
import TypedSql.Connection.Request
import TypedSql.Connection.Target
import TypedSql.Dialogue
import TypedSql.Filter.Basic
import TypedSql.Filter.Condition
import TypedSql.Filter.Expr
import TypedSql.Filter.Lambda
import TypedSql.Filter.Outline
import TypedSql.Filter.Token
import TypedSql.Json.Basic
import TypedSql.Json.Printer
import TypedSql.Json.Reader
import TypedSql.Main
import TypedSql.Model.Basic
import TypedSql.Model.ColumnName
import TypedSql.Name
import TypedSql.Number.Binary
import TypedSql.Number.Reader
import TypedSql.Number.Shortest
import TypedSql.Number.Style
import TypedSql.Proofs.Accepted
import TypedSql.Proofs.Alphabet
import TypedSql.Proofs.Binding
import TypedSql.Proofs.Builders
import TypedSql.Proofs.BuiltStatements
import TypedSql.Proofs.ConditionPhrase
import TypedSql.Proofs.ConditionReader
import TypedSql.Proofs.ConditionScanner
import TypedSql.Proofs.Confined
import TypedSql.Proofs.ConnectionRun
import TypedSql.Proofs.ConnectionSteps
import TypedSql.Proofs.Grouping
import TypedSql.Proofs.LambdaGrammar
import TypedSql.Proofs.Meaning
import TypedSql.Proofs.Numeral
import TypedSql.Proofs.Outcome
import TypedSql.Proofs.Paging
import TypedSql.Proofs.Parameters
import TypedSql.Proofs.Phrase
import TypedSql.Proofs.QueryReader
import TypedSql.Proofs.QueryScanner
import TypedSql.Proofs.Segments
import TypedSql.Proofs.Spacing
import TypedSql.Proofs.Trace
import TypedSql.Row.Basic
import TypedSql.Row.Value
import TypedSql.Row.Wire
import TypedSql.Server.Basic
import TypedSql.Server.Channel
import TypedSql.Server.Executor
import TypedSql.Server.Script
import TypedSql.Settings.Basic
import TypedSql.Settings.Store
import TypedSql.Settings.Stored
import TypedSql.Sql.Lexeme
import TypedSql.Statement.Basic
import TypedSql.Statement.Binding
import TypedSql.Statement.Mark
import TypedSql.Statement.Placeholder
import TypedSql.Statement.Procedure
import TypedSql.Statement.Select
import TypedSql.Statement.Stored
import TypedSql.Statement.Table
import TypedSql.Statement.Write
import TypedSql.Text.Blank
import TypedSql.Text.Letter
import TypedSql.Text.Numeral
import TypedSql.Text.Order
import TypedSql.Text.Split
import TypedSql.Text.Utf8
import TypedSql.Types.Declaration
import TypedSql.Types.Error
import TypedSql.Types.HostType
import TypedSql.Types.NativeType
import TypedSql.Types.Registry
import TypedSql.Url.Address
import TypedSql.Url.Basic
import TypedSql.Url.Domain
import TypedSql.Url.Escape
import TypedSql.Url.Host
import TypedSql.Url.Punycode
import TypedSql.Proofs.ConnectionState
import TypedSql.Proofs.ConnectionTarget
import TypedSql.Proofs.ConnectionFailure
import TypedSql.Proofs.CatalogSteps
import TypedSql.Proofs.CatalogRun
import TypedSql.Proofs.CatalogResync
import TypedSql.Proofs.CatalogCreation
import TypedSql.Proofs.ProcedureBody
import TypedSql.Proofs.ProcedureText
import TypedSql.Proofs.ColumnReferences
import TypedSql.Proofs.RoutineNames
import TypedSql.Proofs.Runs
import TypedSql.Proofs.Registration
import TypedSql.Proofs.ParameterCase
import TypedSql.Proofs.DeclarationGrammar
import TypedSql.Proofs.WellFormed
import TypedSql.Proofs.TokenText
import TypedSql.Proofs.LambdaText
import TypedSql.Proofs.CooldownHistory
import TypedSql.Proofs.JsonSpelling
import TypedSql.Proofs.StoredForms
import TypedSql.Proofs.IndexAssembly
import TypedSql.Proofs.TableCaches
import TypedSql.Proofs.DeclarationRoundTrip
import TypedSql.Proofs.CanonicalDeclaration
import TypedSql.Proofs.MemberList
import TypedSql.Proofs.WriteReader
import TypedSql.Proofs.WrittenColumns
import TypedSql.Proofs.NullOperands
import TypedSql.Proofs.IntegerLiterals
import TypedSql.Proofs.TextMatching
import TypedSql.Proofs.QuotedNames
import TypedSql.Proofs.ScriptClient
import TypedSql.Proofs.DelimiterScript
import TypedSql.Proofs.TableText
import TypedSql.Proofs.SchemaGrowth
import TypedSql.Proofs.PoolRotation
import TypedSql.Proofs.SettingsHistory
import TypedSql.Proofs.DefaultColumnName
import TypedSql.Proofs.RegistrationOrder
import TypedSql.Proofs.TokenCover
import TypedSql.Proofs.ByteScanner
import TypedSql.Proofs.LevelCounter
