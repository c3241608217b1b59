import RustLake.Flight.Completeness
import RustLake.Flight.Liveness
import RustLake.Trino.Pages
import RustLake.Routes.Maintenance
import RustLake.Trino.Pushdown
import RustLake.Iceberg.Identity
import RustLake.Iceberg.Counters
import RustLake.Iceberg.LostUpdates
import RustLake.Iceberg.Overwrites
import RustLake.Persistence.Connections
import RustLake.RestCatalog.Isolation
import RustLake.RestCatalog.Presence
import RustLake.Stream.Commits
import RustLake.Stream.Lifecycle
import RustLake.Stream.SchemaCache
import RustLake.WebSocket.Connection
import RustLake.Scheduler.Green
import RustLake.Scheduler.Snapshots
import RustLake.Routes.AsOf
import RustLake.Routes.Independence
import RustLake.Routes.Rewriting
import RustLake.Routes.Federated
import RustLake.Routes.Explain
import RustLake.Routes.Histories
import RustLake.Credentials.Interleaving
import RustLake.Scheduler.DueTimes
import RustLake.Discovery.Sync
import RustLake.Discovery.Completeness
import RustLake.Executor.OwnBinary
import RustLake.Persistence.Restart
import RustLake.Scheduler.Ahead
import RustLake.Scheduler.Incremental
import RustLake.Sink.Credentials
import RustLake.Persistence.Caches
import RustLake.Transform.DbtRun
import RustLake.Transform.Executable
import RustLake.Routes.Upload
import RustLake.Executor.SqlWrapper
import RustLake.Iceberg.AppendedSchema
import RustLake.Notebook.Stages
import RustLake.Notebook.Execution
import RustLake.Discovery.DeltaLog
import RustLake.Trino.Refresh
import RustLake.Trino.Provider
import RustLake.Mongo.Collection
import RustLake.Stream.Pipeline
import RustLake.Stream.KafkaSink
import RustLake.Sink.Conservation
import RustLake.Mongo.GapFree
import RustLake.Stream.AvroBatch
import RustLake.Transform.Dependencies
import RustLake.Auth.Glob
import RustLake.Auth.Users
import RustLake.Scheduler.Diff
import RustLake.Iceberg.ParentLoops
import RustLake.Router.CostModel
import RustLake.Router.Selectivity
import RustLake.Scheduler.Dag
import RustLake.Vector.Search
import RustLake.Sql.Renaming
import RustLake.Routes.TextScanners
import RustLake.Stream.EventsCsv
import RustLake.Routes.CsvStdout
import RustLake.Scheduler.AbTest
import RustLake.Scheduler.TableGates
import RustLake.Mongo.Uri
import RustLake.Routes.Recommendation
import RustLake.Flight.Pool
