import EntityLog.Time.Span
import EntityLog.Files.Path
import EntityLog.Record.Basic
/-!
# Pipeline configuration

The settings of a pipeline: queue size, worker count, batch size, flush and poll intervals, where
the log lives and how it is backed up, how shutdown proceeds, and which entities are captured.
Every setting has a default, and a configuration is valid when the sizes, counts and intervals are
positive and the log path names a file; validation reports the first of these that fails, in
that order.
-/

namespace EntityLog.Config

open EntityLog.Time
open EntityLog.Files

/-- How the backup copy of the log is kept. -/
inductive BackupPolicy where
  /-- Every write is appended to the backup too. -/
  | mirror
  /-- The whole log is copied over the backup after every write. -/
  | fullCopy
  deriving Repr, BEq, DecidableEq

/-- The name of a policy. -/
def BackupPolicy.name : BackupPolicy → String
  | .mirror => "mirror"
  | .fullCopy => "full_copy"

/-- All policies in declaration order. -/
def BackupPolicy.all : List BackupPolicy := [.mirror, .fullCopy]

/-- How a pipeline shuts down. -/
structure ShutdownConfig where
  workerTimeout : Span := Span.ofSecs 10
  drainTimeout : Span := Span.ofSecs 30
  pollInterval : Span := Span.ofMillis 100
  finalFlushRounds : Nat := 5
  residueLogLimit : Nat := 10
  deriving Repr, BEq, DecidableEq

/-- Which entities are captured: all when enabled, except the excluded names (kept sorted and
without repeats). -/
structure CaptureConfig where
  enabled : Bool := true
  excluded : List String := []
  deriving Repr, BEq, DecidableEq

/-- Whether changes of an entity type are captured. -/
def CaptureConfig.captures (c : CaptureConfig) (entity : String) : Bool :=
  c.enabled && !c.excluded.contains entity

/-- Inserts a name into a sorted list without repeats. -/
def insertName (name : String) : List String → List String
  | [] => [name]
  | n :: rest =>
    if name < n then name :: n :: rest
    else if name = n then n :: rest
    else n :: insertName name rest

/-- A sorted list of the names, without repeats. -/
def nameSet (names : List String) : List String := names.foldl (fun acc n => insertName n acc) []

/-- All settings of a pipeline. -/
structure PipelineConfig where
  queueCapacity : Nat := 100000
  workerThreads : Nat := 5
  batchSize : Nat := 500
  flushInterval : Span := Span.ofSecs 5
  workerPollInterval : Span := Span.ofMillis 50
  walPath : Path := "logs/entity-changes.log"
  backup : BackupPolicy := .mirror
  shutdown : ShutdownConfig := {}
  capture : CaptureConfig := {}
  deriving Repr, BEq, DecidableEq

/-- Why a configuration could not be obtained. -/
inductive ConfigError where
  /-- The configuration file could not be read. -/
  | io (path : Path) (reason : String)
  /-- The configuration text is malformed; the message shows where. -/
  | parse (message : String)
  /-- A setting is out of range. -/
  | invalid (reason : String)
  deriving Repr, BEq

/-- The message of a configuration error. -/
def ConfigError.message : ConfigError → String
  | .io path reason => "failed to read config " ++ path ++ ": " ++ reason
  | .parse m => "invalid config syntax: " ++ m
  | .invalid r => "invalid config: " ++ r

/-- The name of the kind of a configuration error. -/
def ConfigError.kind : ConfigError → String
  | .io _ _ => "Io"
  | .parse _ => "Parse"
  | .invalid _ => "Invalid"

/-- The first setting that is out of range, checked in a fixed order. -/
def PipelineConfig.validate (c : PipelineConfig) : Except ConfigError Unit :=
  if c.queueCapacity == 0 then .error (.invalid "queue_capacity must be positive")
  else if c.workerThreads == 0 then .error (.invalid "worker_threads must be positive")
  else if c.batchSize == 0 then .error (.invalid "batch_size must be positive")
  else if c.flushInterval.isZero then .error (.invalid "flush_interval must be positive")
  else if c.workerPollInterval.isZero then .error (.invalid "worker_poll_interval must be positive")
  else if c.shutdown.pollInterval.isZero then
    .error (.invalid "shutdown.poll_interval must be positive")
  else if c.shutdown.finalFlushRounds == 0 then
    .error (.invalid "shutdown.final_flush_rounds must be positive")
  else if (Path.fileName c.walPath).isNone then .error (.invalid "wal_path must name a file")
  else .ok ()

end EntityLog.Config
