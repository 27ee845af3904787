import EntityLog.Record.Codec
/-!
# Checkpoints

A checkpoint marks the durable end of a log: the byte position up to which the log is known to be
complete, and when it was taken. Positions are 64-bit and advancing saturates.
-/

namespace EntityLog.Log

open EntityLog.Json
open EntityLog.Record
open EntityLog.Time

/-- The largest position. -/
def maxPosition : Nat := Nat.pow 2 64 - 1

/-- The durable end of a log and when it was recorded. -/
structure Checkpoint where
  position : Nat
  timestamp : Instant
  deriving Repr, BEq, DecidableEq

/-- The position `len` bytes further, at most `maxPosition`. -/
def advancePosition (position len : Nat) : Nat := min maxPosition (position + len)

/-- Whether a file of `size` bytes ends before the checkpoint. -/
def Checkpoint.exceeds (c : Checkpoint) (size : Nat) : Bool := c.position > size

/-- The JSON text of a checkpoint. -/
def Checkpoint.encode (c : Checkpoint) : String :=
  objectText [("position", some (toString c.position)),
    ("timestamp", some (encodeInstant c.timestamp))]

/-- The fields of a checkpoint as read. -/
structure CheckpointDraft where
  position : Option Nat := none
  timestamp : Option Instant := none

/-- How a checkpoint object is read. -/
def checkpointShape : Shape CheckpointDraft Checkpoint where
  name := "struct Checkpoint"
  fields := [
    { name := "position",
      read := fun d s => do return { d with position := some (← Decoder.unsigned "u64" maxPosition s) } },
    { name := "timestamp",
      read := fun d s => do return { d with timestamp := some (← instantDecoder s) } }]
  start := {}
  finish d := do return ⟨← required "position" d.position, ← required "timestamp" d.timestamp⟩

/-- A checkpoint. -/
def checkpointDecoder : Decoder Checkpoint := Decoder.struct checkpointShape

end EntityLog.Log
