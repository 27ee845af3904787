import EntityLog.Log.Backup
import EntityLog.Log.Lock
import EntityLog.Record.Codec
/-!
# The durable log

An append-only log of records, one JSON line each, with a checkpoint of its durable end, a
backup for recovery and a lock for ownership.

A write appends the line, syncs it, refreshes the backup and then stores the advanced
checkpoint, so the backup always covers the checkpoint. Before writing, a live file that is
missing or shorter than the checkpoint is recovered; after a failed append the log is recovered
when the live file was damaged and otherwise rolled back to the checkpoint.

Opening loads the checkpoint (or adopts the current size when there is none), restores the live
file from the backup when it is shorter than the checkpoint (moving the damaged file aside),
cuts anything past the checkpoint, and reconciles the backup. A log that fails to open is
closed again, so its lock is free.
-/

namespace EntityLog.Log

open EntityLog.Files
open EntityLog.Config
open EntityLog.Record
open EntityLog.Json

/-- An open (or closed) durable log. -/
structure DurableLog where
  paths : LogPaths
  /-- The append handle of the live file; gone once closed or after a failed recovery. -/
  file : Option Nat
  backup : Backup
  checkpoint : Checkpoint
  recoveries : Nat
  /-- The lock; gone once closed. -/
  lock : Option LogLock
  deriving Repr, BEq

/-- A computation on a machine and a log; both keep the changes made before a failure. -/
abbrev LogIo := ExceptT WalError (StateM (Machine × DurableLog))

namespace LogIo

/-- Runs a machine computation. -/
def wal {α : Type} (x : Wal α) : LogIo α :=
  ExceptT.mk (modifyGet fun (m, log) =>
    let (r, m') := x.run.run m
    (r, (m', log)))

/-- Runs a system computation. -/
def io {α : Type} (x : Io α) : LogIo α := wal (Wal.io x)

/-- The log. -/
def log : LogIo DurableLog := do return (← get).2

/-- Changes the log. -/
def update (f : DurableLog → DurableLog) : LogIo Unit := modify fun (m, l) => (m, f l)

/-- Runs on a machine with a log: the outcome and the log as left. -/
def runOn {α : Type} (x : LogIo α) (log : DurableLog) : Wal (Except WalError α × DurableLog) :=
  ExceptT.lift (modifyGet fun m =>
    let (r, (m', log')) := x.run.run (m, log)
    ((r, log'), m'))

end LogIo

open LogIo

namespace DurableLog

/-- Moves the damaged live file aside and copies the backup into place; gives the restored
size. -/
def restore : LogIo Nat := do
  let l ← log
  if !(← wal l.backup.present) then throw (.noBackup l.backup.path)
  if ← io (Io.exists? l.paths.live) then
    let aside := l.paths.corrupted (← io Io.now)
    io (Io.rename l.paths.live aside)
  let restored ← wal (l.backup.restoreInto l.paths.live)
  update fun l => { l with recoveries := l.recoveries + 1 }
  return restored

/-- The checkpoint to open at, with the size of the live file: the stored checkpoint, after a
restore when the live file falls short of it, or a new one at the live file's size. -/
def checkpointFor (paths : LogPaths) (stored : Option Checkpoint) (size : Nat) :
    LogIo (Checkpoint × Nat) :=
  match stored with
  | some c =>
    if c.exceeds size then do
      let size ← restore
      if c.exceeds size then throw (.corrupted paths.live size c.position)
      pure (c, size)
    else pure (c, size)
  | none => do
    let c := Checkpoint.at size (← io Io.now)
    wal (storeCheckpoint paths.checkpoint c)
    pure (c, size)

/-- Opens the live file at a checkpoint: cuts what lies past it, reconciles the backup and keeps
the handles. -/
def openAt (paths : LogPaths) (checkpoint : Checkpoint) (size : Nat) : LogIo Unit := do
  let inode ← io (Io.create paths.live false)
  if size > checkpoint.position then
    io do
      Io.setLength inode checkpoint.position
      Io.sync inode
  let backup ← wal ((← log).backup.reconcile paths.live checkpoint.position)
  update fun l => { l with backup := backup, file := some inode, checkpoint := checkpoint }

/-- Loads the checkpoint, repairs the live file against it and opens the handles. -/
def init : LogIo Unit := do
  let l ← log
  let stored ← wal (loadCheckpoint l.paths.checkpoint)
  let size := (← wal (fileLength l.paths.live)).getD 0
  let (checkpoint, size) ← checkpointFor l.paths stored size
  openAt l.paths checkpoint size

/-- Drops the live handle after syncing the file; a failed sync is ignored. -/
def dropFile : LogIo Unit := do
  match (← log).file with
  | some inode =>
    update fun l => { l with file := none }
    tryCatch (io (Io.sync inode)) fun _ => pure ()
  | none => pure ()

/-- Lets go of the lock. -/
def dropLock : LogIo Unit := do
  match (← log).lock with
  | some lock =>
    update fun l => { l with lock := none }
    wal lock.release
  | none => pure ()

/-- Syncs and releases everything; closing twice does nothing more. -/
def close : LogIo Unit := do
  dropFile
  let backup ← wal (← log).backup.close
  update fun l => { l with backup := backup }
  dropLock

/-- Creates the directory a log lives in, when its path names one. -/
def makeParent (path : Path) : Wal Unit :=
  match Path.parent path with
  | some parent => if !parent.isEmpty then Wal.io (Io.createDirAll parent) else pure ()
  | none => pure ()

/-- Opens the log with these files once its directory is there: takes the lock, opens at the
stored checkpoint, and closes again when that fails. -/
def openLocked (paths : LogPaths) (policy : BackupPolicy) : Wal DurableLog := do
  let lock ← LogLock.acquire paths.lock
  let now ← Wal.io Io.now
  let fresh : DurableLog :=
    ⟨paths, none, ⟨paths.backup, policy, none⟩, Checkpoint.at 0 now, 0, some lock⟩
  let (r, l) ← init.runOn fresh
  match r with
  | .ok () => return l
  | .error e =>
    let _ ← close.runOn l
    throw e

/-- Opens the log at `path`, creating it when needed. -/
def openLog (path : Path) (policy : BackupPolicy) : Wal DurableLog := do
  makeParent path
  openLocked (LogPaths.forLog path) policy

/-- Whether the live file is missing or shorter than the checkpoint. -/
def isCorrupted : LogIo Bool := do
  let l ← log
  tryCatch (do
    let size ← io (Io.size? l.paths.live)
    match size with
    | some s => return l.checkpoint.exceeds s
    | none => return true) fun _ => return true

/-- Drops the handles and opens again against the checkpoint. -/
def recover : LogIo Unit := do
  update fun l => { l with file := none }
  let backup ← wal (← log).backup.close
  update fun l => { l with backup := backup }
  init

/-- Appends a line and advances the checkpoint past it. -/
def appendLine (line : ByteArray) : LogIo Checkpoint := do
  let l ← log
  let inode ← match l.file with
    | some i => pure i
    | none => throw .closed
  io do
    Io.append inode line
    Io.sync inode
  wal (l.backup.record l.paths.live line)
  let next := Checkpoint.at (advancePosition l.checkpoint.position line.size) (← io Io.now)
  wal (storeCheckpoint l.paths.checkpoint next)
  update fun l => { l with checkpoint := next }
  return next

/-- Cuts a failed partial append back to the checkpoint; failures are ignored. -/
def rollback : LogIo Unit := do
  let l ← log
  let position := l.checkpoint.position
  match l.file with
  | some inode => tryCatch (io (Io.setLength inode position)) fun _ => pure ()
  | none => pure ()
  wal (l.backup.rollback position)

/-- Appends a line; when that fails, recovers a damaged live file or else rolls back, and
reports the failure. -/
def appendOrUndo (line : ByteArray) : LogIo Checkpoint :=
  tryCatch (appendLine line) fun e => do
    if ← isCorrupted then tryCatch recover fun _ => pure ()
    else rollback
    throw e

/-- Writes a record: recovers a damaged live file first, and after a failed append recovers or
rolls back before reporting the failure. -/
def write (r : ChangeRecord) : LogIo Checkpoint := do
  if (← log).file.isNone then throw .closed
  let line := (r.encode ++ "\n").toUTF8
  if ← isCorrupted then recover
  appendOrUndo line

/-- Whether the log is closed. -/
def isClosed (l : DurableLog) : Bool := l.lock.isNone

/-- Drops a carriage return at the end of a line. -/
def dropReturn (line : List UInt8) : List UInt8 :=
  if line.getLast? == some 13 then line.dropLast else line

/-- Splits bytes into lines as a line reader does: a line ended by a line feed loses it and a
carriage return before it; a last line without a line feed is kept as it is. -/
def splitLines (bytes : List UInt8) : List (List UInt8) :=
  if bytes.isEmpty then []
  else
    let pieces := bytes.splitOn 10
    if bytes.getLast? == some 10 then pieces.dropLast.map dropReturn
    else pieces.dropLast.map dropReturn ++ [pieces.getLast?.getD []]

/-- Decodes lines into records in order, skipping empty lines. -/
def decodeLines : List (List UInt8) → Except WalError (List ChangeRecord)
  | [] => .ok []
  | line :: rest => do
    if line.isEmpty then decodeLines rest
    else
      let bytes := ByteArray.mk line.toArray
      match String.fromUTF8? bytes with
      | none => .error (.io .notText)
      | some _ =>
        match decodeText recordDecoder bytes with
        | .ok r => return r :: (← decodeLines rest)
        | .error e => .error (.json e.message)

/-- Reads back the records up to the stored checkpoint (the whole file without one); a missing
log has no records. -/
def replay (path : Path) : Wal (List ChangeRecord) := do
  let opened ← tryCatch (some <$> Wal.io (Io.openRead path)) fun e =>
    match e with
    | .io .notFound => pure none
    | other => throw other
  match opened with
  | none => return []
  | some handle =>
    let limit := ((← loadCheckpoint (LogPaths.forLog path).checkpoint).map (·.position)).getD
      maxPosition
    match handle with
    | none => throw (.io .isDirectory)
    | some inode =>
      let bytes ← Wal.io (Io.contents inode)
      match decodeLines (splitLines (bytes.toList.take limit)) with
      | .ok rs => return rs
      | .error e => throw e

end DurableLog

end EntityLog.Log
