import EntityLog.Log.Store
import EntityLog.Config.Basic
/-!
# The backup of a log

The backup is a copy of the durable part of the live file, kept for recovery. Under the mirror
policy every line appended to the live file is appended to the backup through a handle kept
open; under the full-copy policy the whole live file is copied over the backup after each write.

On opening, the backup is brought in line with the durable part: a longer backup is cut, a
shorter or missing one is replaced by a copy of the live file.
-/

namespace EntityLog.Log

open EntityLog.Files
open EntityLog.Config

/-- The backup of a log: its path, its policy, and the append handle of the mirror policy. -/
structure Backup where
  path : Path
  policy : BackupPolicy
  mirror : Option Nat := none
  deriving Repr, BEq

namespace Backup

/-- Whether the backup file exists. -/
def present (b : Backup) : Wal Bool := Wal.io (Io.exists? b.path)

/-- Brings the backup in line with the first `position` bytes of `live`. -/
def reconcile (b : Backup) (live : Path) (position : Nat) : Wal Backup := do
  let b := { b with mirror := none }
  let size ← fileLength b.path
  if size != some position then
    match size with
    | some s =>
      if s > position then
        Wal.io do
          let inode ← Io.openWrite b.path
          Io.setLength inode position
      else let _ ← Wal.io (Io.copy live b.path)
    | none => let _ ← Wal.io (Io.copy live b.path)
  if b.policy == .mirror then
    let inode ← Wal.io (Io.openWrite b.path)
    return { b with mirror := some inode }
  return b

/-- Refreshes the backup after `line` was appended to `live`. -/
def record (b : Backup) (live : Path) (line : ByteArray) : Wal Unit :=
  match b.policy with
  | .mirror =>
    match b.mirror with
    | some inode => Wal.io do Io.append inode line; Io.sync inode
    | none => throw .closed
  | .fullCopy => do let _ ← Wal.io (Io.copy live b.path)

/-- Cuts a partly refreshed backup back to `position`; failures are ignored. -/
def rollback (b : Backup) (position : Nat) : Wal Unit :=
  tryCatch (match b.policy with
    | .mirror =>
      match b.mirror with
      | some inode => Wal.io (Io.setLength inode position)
      | none => pure ()
    | .fullCopy => Wal.io do
      match ← Io.size? b.path with
      | some s =>
        if s > position then
          let inode ← Io.openWrite b.path
          Io.setLength inode position
      | none => pure ()) fun _ => pure ()

/-- Copies the backup over `live`; gives the length copied. -/
def restoreInto (b : Backup) (live : Path) : Wal Nat := do
  if !(← b.present) then throw (.noBackup b.path)
  Wal.io (Io.copy b.path live)

/-- Syncs and lets go of the mirror handle; a failed sync is ignored. -/
def close (b : Backup) : Wal Backup := do
  match b.mirror with
  | some inode => tryCatch (Wal.io (Io.sync inode)) fun _ => pure ()
  | none => pure ()
  return { b with mirror := none }

end Backup

end EntityLog.Log
