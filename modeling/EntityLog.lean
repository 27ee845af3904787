import EntityLog.Config.Basic
import EntityLog.Config.Codec
import EntityLog.Config.TomlForm
import EntityLog.Daemon.Cli
import EntityLog.Daemon.Host
import EntityLog.Daemon.Ingest
import EntityLog.Daemon.Request
import EntityLog.Daemon.Run
import EntityLog.Decimal.Layout
import EntityLog.Decimal.Rounding
import EntityLog.Decimal.Shortest
import EntityLog.Files.Disk
import EntityLog.Files.Machine
import EntityLog.Files.Path
import EntityLog.Json.Decode
import EntityLog.Json.Print
import EntityLog.Json.Quoted
import EntityLog.Json.Reader
import EntityLog.Json.Value
import EntityLog.Log.Backup
import EntityLog.Log.Checkpoint
import EntityLog.Log.Durable
import EntityLog.Log.Error
import EntityLog.Log.Lock
import EntityLog.Log.Paths
import EntityLog.Log.Store
import EntityLog.Main
import EntityLog.Pipeline.Coordinator
import EntityLog.Pipeline.JsonLines
import EntityLog.Pipeline.Metrics
import EntityLog.Pipeline.Pool
import EntityLog.Pipeline.Processor
import EntityLog.Pipeline.Queue
import EntityLog.Pipeline.Sink
import EntityLog.Proofs.Json.Cursor
import EntityLog.Proofs.Json.Objects
import EntityLog.Proofs.Json.Results
import EntityLog.Proofs.Json.Strings
import EntityLog.Proofs.Json.Values
import EntityLog.Proofs.Pipeline.Handing
import EntityLog.Proofs.Record.Ids
import EntityLog.Proofs.Record.RoundTrip
import EntityLog.Proofs.Record.Valid
import EntityLog.Proofs.Time.Calendar
import EntityLog.Proofs.Time.Timestamps
import EntityLog.Record.Basic
import EntityLog.Record.Codec
import EntityLog.Record.Uuid
import EntityLog.Script.Basic
import EntityLog.Script.Coordinator
import EntityLog.Script.Daemon
import EntityLog.Script.Files
import EntityLog.Script.Log
import EntityLog.Script.Processor
import EntityLog.Script.Records
import EntityLog.Text.Blank
import EntityLog.Text.Literal
import EntityLog.Text.Mismatch
import EntityLog.Text.Similarity
import EntityLog.Time.Instant
import EntityLog.Time.Span
import EntityLog.Toml.Decode
import EntityLog.Toml.Document
import EntityLog.Toml.Grammar
import EntityLog.Toml.Reader
import EntityLog.Toml.Report
import EntityLog.Proofs.Pipeline.Accounting
import EntityLog.Proofs.Log.Handles
import EntityLog.Proofs.Files.Frames
import EntityLog.Proofs.Json.Numbers
import EntityLog.Proofs.Log.Checkpoints
import EntityLog.Proofs.Log.Opening
import EntityLog.Proofs.Log.Writing
import EntityLog.Proofs.Pipeline.BoundedFifo
import EntityLog.Proofs.Log.Repair
import EntityLog.Proofs.Log.Appending
import EntityLog.Proofs.Log.Replaying
import EntityLog.Proofs.Pipeline.FinalFlush
import EntityLog.Proofs.Record.ChangeSets
import EntityLog.Proofs.Daemon.Requests
import EntityLog.Proofs.Daemon.Settings
import EntityLog.Proofs.Pipeline.LineFiles
import EntityLog.Proofs.Record.Aliases
import EntityLog.Proofs.Pipeline.Snapshots
import EntityLog.Proofs.Pipeline.Shutdown
import EntityLog.Proofs.Log.CrashConsistency
import EntityLog.Proofs.Pipeline.Events
import EntityLog.Proofs.Pipeline.Exits
import EntityLog.Proofs.Pipeline.Delivery
import EntityLog.Proofs.Pipeline.Chunking
import EntityLog.Proofs.Pipeline.Refusal
import EntityLog.Proofs.Pipeline.Conservation
import EntityLog.Proofs.Pipeline.Resources
import EntityLog.Proofs.Pipeline.Lifecycle
