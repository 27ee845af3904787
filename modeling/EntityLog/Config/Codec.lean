import EntityLog.Config.Basic
import EntityLog.Record.Codec
/-!
# The JSON form of configurations

Configurations are written with their keys in a fixed order, spans in their written form and the
excluded entities as a sorted array. They are read with every key optional (a missing key keeps
its default) and unknown keys refused.
-/

namespace EntityLog.Config

open EntityLog.Json
open EntityLog.Time
open EntityLog.Record

/-- The JSON text of a policy. -/
def BackupPolicy.encode (p : BackupPolicy) : String := quote p.name

/-- The JSON text of a span. -/
def encodeSpan (d : Span) : String := quote d.render

/-- The JSON text of shutdown settings. -/
def ShutdownConfig.encode (c : ShutdownConfig) : String :=
  objectText [("worker_timeout", some (encodeSpan c.workerTimeout)),
    ("drain_timeout", some (encodeSpan c.drainTimeout)),
    ("poll_interval", some (encodeSpan c.pollInterval)),
    ("final_flush_rounds", some (toString c.finalFlushRounds)),
    ("residue_log_limit", some (toString c.residueLogLimit))]

/-- The JSON text of capture settings. -/
def CaptureConfig.encode (c : CaptureConfig) : String :=
  objectText [("enabled", some (if c.enabled then "true" else "false")),
    ("excluded_entities", some ("[" ++ ",".intercalate (c.excluded.map quote) ++ "]"))]

/-- The JSON text of a configuration. -/
def PipelineConfig.encode (c : PipelineConfig) : String :=
  objectText [("queue_capacity", some (toString c.queueCapacity)),
    ("worker_threads", some (toString c.workerThreads)),
    ("batch_size", some (toString c.batchSize)),
    ("flush_interval", some (encodeSpan c.flushInterval)),
    ("worker_poll_interval", some (encodeSpan c.workerPollInterval)),
    ("wal_path", some (quote c.walPath)),
    ("backup", some c.backup.encode),
    ("shutdown", some c.shutdown.encode),
    ("capture", some c.capture.encode)]

/-- The largest value of a size setting. -/
def sizeBound : Nat := Nat.pow 2 64 - 1

/-- A size setting. -/
def sizeDecoder : Decoder Nat := Decoder.unsigned "usize" sizeBound

/-- A span in its written form. -/
def spanDecoder : Decoder Span :=
  Decoder.text "a duration" fun s =>
    match Span.parse s with
    | .ok d => .ok d
    | .error _ => .error (Text.invalidValue ("string " ++ Text.literal s) "a duration")

/-- A policy by name. -/
def backupDecoder : Decoder BackupPolicy :=
  Decoder.variant (BackupPolicy.all.map fun p => (p.name, p))

/-- How shutdown settings are read. -/
def shutdownShape : Shape ShutdownConfig ShutdownConfig where
  name := "struct ShutdownConfig"
  fields := [
    { name := "worker_timeout", defaulted := true,
      read := fun c s => do return { c with workerTimeout := ← spanDecoder s } },
    { name := "drain_timeout", defaulted := true,
      read := fun c s => do return { c with drainTimeout := ← spanDecoder s } },
    { name := "poll_interval", defaulted := true,
      read := fun c s => do return { c with pollInterval := ← spanDecoder s } },
    { name := "final_flush_rounds", defaulted := true,
      read := fun c s => do return { c with finalFlushRounds := ← sizeDecoder s } },
    { name := "residue_log_limit", defaulted := true,
      read := fun c s => do return { c with residueLogLimit := ← sizeDecoder s } }]
  denyUnknown := true
  start := {}
  finish c := .ok c

/-- Shutdown settings. -/
def shutdownDecoder : Decoder ShutdownConfig := Decoder.struct shutdownShape

/-- How capture settings are read. -/
def captureShape : Shape CaptureConfig CaptureConfig where
  name := "struct CaptureConfig"
  fields := [
    { name := "enabled", defaulted := true,
      read := fun c s => do return { c with enabled := ← Decoder.bool s } },
    { name := "excluded_entities", defaulted := true,
      read := fun c s => do
        return { c with excluded := nameSet (← Decoder.seq "a sequence" Decoder.string s) } }]
  denyUnknown := true
  start := {}
  finish c := .ok c

/-- Capture settings. -/
def captureDecoder : Decoder CaptureConfig := Decoder.struct captureShape

/-- A path. -/
def pathDecoder : Decoder Files.Path := Decoder.text "path string" .ok

/-- How a configuration is read. -/
def pipelineShape : Shape PipelineConfig PipelineConfig where
  name := "struct PipelineConfig"
  fields := [
    { name := "queue_capacity", defaulted := true,
      read := fun c s => do return { c with queueCapacity := ← sizeDecoder s } },
    { name := "worker_threads", defaulted := true,
      read := fun c s => do return { c with workerThreads := ← sizeDecoder s } },
    { name := "batch_size", defaulted := true,
      read := fun c s => do return { c with batchSize := ← sizeDecoder s } },
    { name := "flush_interval", defaulted := true,
      read := fun c s => do return { c with flushInterval := ← spanDecoder s } },
    { name := "worker_poll_interval", defaulted := true,
      read := fun c s => do return { c with workerPollInterval := ← spanDecoder s } },
    { name := "wal_path", defaulted := true,
      read := fun c s => do return { c with walPath := ← pathDecoder s } },
    { name := "backup", defaulted := true,
      read := fun c s => do return { c with backup := ← backupDecoder s } },
    { name := "shutdown", defaulted := true,
      read := fun c s => do return { c with shutdown := ← shutdownDecoder s } },
    { name := "capture", defaulted := true,
      read := fun c s => do return { c with capture := ← captureDecoder s } }]
  denyUnknown := true
  start := {}
  finish c := .ok c

/-- A configuration. -/
def pipelineDecoder : Decoder PipelineConfig := Decoder.struct pipelineShape

end EntityLog.Config
