import EntityLog.Files.Machine
import EntityLog.Log.Error
import EntityLog.Log.Paths
import EntityLog.Log.Checkpoint
/-!
# Checkpoint files

A checkpoint is stored by writing its JSON text to a temporary file beside it, syncing, and
renaming the temporary file over it, so that the stored checkpoint is always a whole one. A
missing checkpoint file reads as none; one that does not decode is an error naming the file.
-/

namespace EntityLog.Log

open EntityLog.Files
open EntityLog.Json

/-- A computation on a machine that may fail with a log error. -/
abbrev Wal := OnMachine WalError

/-- Runs a system computation as a log computation. -/
def Wal.io {α : Type} (x : Io α) : Wal α := OnMachine.io WalError.io x

/-- The size of a file, `none` when it is missing. -/
def fileLength (p : Path) : Wal (Option Nat) := Wal.io (Io.size? p)

/-- The checkpoint at time `now`. -/
def Checkpoint.at (position : Nat) (now : Time.Instant) : Checkpoint := ⟨position, now⟩

/-- Reads a stored checkpoint. -/
def loadCheckpoint (p : Path) : Wal (Option Checkpoint) := do
  let content ← tryCatch (some <$> Wal.io (Io.read p)) fun e =>
    match e with
    | .io .notFound => pure none
    | other => throw other
  match content with
  | none => return none
  | some bytes =>
    match decodeText checkpointDecoder bytes with
    | .ok c => return some c
    | .error e => throw (.checkpoint p e.message)

/-- Stores a checkpoint through a temporary file. -/
def storeCheckpoint (p : Path) (c : Checkpoint) : Wal Unit := Wal.io do
  let tmp := temporaryOf p
  let inode ← Io.create tmp true
  Io.append inode c.encode.toUTF8
  Io.sync inode
  Io.rename tmp p

end EntityLog.Log
