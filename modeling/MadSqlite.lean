import MadSqlite.TransactionFlag
import MadSqlite.StatementLeak
import MadSqlite.InsertDurability
import MadSqlite.RollbackRestores
import MadSqlite.TransactionRelease
import MadSqlite.ExecFilter
import MadSqlite.CursorLifetime
import MadSqlite.SharedHandle
import MadSqlite.DatabaseRegistry
import MadSqlite.RegistryThreads
import MadSqlite.OneHandle
import MadSqlite.OneConnection
import MadSqlite.ContentMap
import MadSqlite.SqliteCalls
import MadSqlite.InsertOutcome
import MadSqlite.ErrorText
import MadSqlite.ChangeCount
import MadSqlite.InsertText
import MadSqlite.CursorRows
import MadSqlite.CodePaths
import MadSqlite.CursorAnswers
import MadSqlite.InsertStatement
import MadSqlite.BoundBytes
import MadSqlite.QueryArguments
import MadSqlite.JniDatabases
import MadSqlite.JniQueries
import MadSqlite.TextRoundTrip
import MadSqlite.BlobRoundTrip
import MadSqlite.KeyOrder
import MadSqlite.ContentSafety
import MadSqlite.JniInsert
import MadSqlite.HandleAtomic
import MadSqlite.Transactions
import MadSqlite.TransactionRefinement
import MadSqlite.NestedTransactions
import MadSqlite.SavepointRefinement
import MadSqlite.ThreadContent
import MadSqlite.FloatRounding
import MadSqlite.SqliteAtoi
import MadSqlite.SqliteNumbers
import MadSqlite.NumberRoundTrip
import MadSqlite.JniRows
import MadSqlite.SqliteCompare
import MadSqlite.SearchByArgument
import MadSqlite.JniSearch
import MadSqlite.JniBridge
import MadSqlite.InMemoryPointers
import MadSqlite.ExecScript
