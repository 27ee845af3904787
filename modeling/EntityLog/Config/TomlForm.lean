import EntityLog.Config.Basic
import EntityLog.Toml.Reader
import EntityLog.Toml.Decode
/-!
# Configurations written in TOML

A configuration file is a TOML document whose keys are the settings; every key is optional and
an unknown key is refused. Reading it parses the document, reads the settings, and then
validates them; a refusal of the first two steps is reported with the line it points at.
-/

namespace EntityLog.Config

open EntityLog.Toml
open EntityLog.Time

/-- A size setting. -/
def sizeSetting : NodeReader Nat := NodeReader.unsigned "usize"

/-- A span setting in its written form. -/
def spanSetting : NodeReader Time.Span :=
  NodeReader.text "a duration" fun s =>
    match Time.Span.parse s with
    | .ok d => .ok d
    | .error _ => .error (Text.invalidValue ("string " ++ Text.literal s) "a duration")

/-- A backup policy by name. -/
def backupSetting : NodeReader BackupPolicy :=
  NodeReader.variant (BackupPolicy.all.map fun p => (p.name, p))

/-- How shutdown settings are read. -/
def shutdownLayout : Toml.Layout ShutdownConfig where
  name := "struct ShutdownConfig"
  members := [
    ⟨"worker_timeout", fun c n => do return { c with workerTimeout := ← spanSetting n }⟩,
    ⟨"drain_timeout", fun c n => do return { c with drainTimeout := ← spanSetting n }⟩,
    ⟨"poll_interval", fun c n => do return { c with pollInterval := ← spanSetting n }⟩,
    ⟨"final_flush_rounds", fun c n => do return { c with finalFlushRounds := ← sizeSetting n }⟩,
    ⟨"residue_log_limit", fun c n => do return { c with residueLogLimit := ← sizeSetting n }⟩]
  start := {}

/-- How capture settings are read. -/
def captureLayout : Toml.Layout CaptureConfig where
  name := "struct CaptureConfig"
  members := [
    ⟨"enabled", fun c n => do return { c with enabled := ← NodeReader.bool n }⟩,
    ⟨"excluded_entities", fun c n => do
      let names ← NodeReader.seq "a sequence" (NodeReader.text "a string" .ok) n
      return { c with excluded := nameSet names }⟩]
  start := {}

/-- How a configuration is read. -/
def pipelineLayout : Toml.Layout PipelineConfig where
  name := "struct PipelineConfig"
  members := [
    ⟨"queue_capacity", fun c n => do return { c with queueCapacity := ← sizeSetting n }⟩,
    ⟨"worker_threads", fun c n => do return { c with workerThreads := ← sizeSetting n }⟩,
    ⟨"batch_size", fun c n => do return { c with batchSize := ← sizeSetting n }⟩,
    ⟨"flush_interval", fun c n => do return { c with flushInterval := ← spanSetting n }⟩,
    ⟨"worker_poll_interval", fun c n => do
      return { c with workerPollInterval := ← spanSetting n }⟩,
    ⟨"wal_path", fun c n => do return { c with walPath := ← NodeReader.text "path string" .ok n }⟩,
    ⟨"backup", fun c n => do return { c with backup := ← backupSetting n }⟩,
    ⟨"shutdown", fun c n => do
      return { c with shutdown := ← NodeReader.struct shutdownLayout n }⟩,
    ⟨"capture", fun c n => do return { c with capture := ← NodeReader.struct captureLayout n }⟩]
  start := {}

/-- Reads the settings of a TOML text, without validating them. -/
def PipelineConfig.readToml (source : String) : Except ConfigError PipelineConfig :=
  let report (e : TomlError) : ConfigError := .parse (e.render source)
  match readDocument source with
  | .error e => .error (report e)
  | .ok doc =>
    match NodeReader.struct pipelineLayout doc with
    | .ok c => .ok c
    | .error r => .error (report ⟨r.message, r.span⟩)

/-- Reads and validates the settings of a TOML text. -/
def PipelineConfig.ofToml (source : String) : Except ConfigError PipelineConfig := do
  let c ← PipelineConfig.readToml source
  c.validate
  return c

end EntityLog.Config
