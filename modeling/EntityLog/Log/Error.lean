import EntityLog.Files.Disk
/-!
# Log errors

What can go wrong with a durable log, with the messages reported for it.
-/

namespace EntityLog.Log

open EntityLog.Files

/-- An error of a durable log. -/
inductive WalError where
  | io (e : IoFault)
  /-- A record line that does not decode, with the decoder's message. -/
  | json (message : String)
  | lockHeldInProcess (path : Path)
  | lockHeldExternally (path : Path)
  | corrupted (path : Path) (fileSize checkpoint : Nat)
  | noBackup (path : Path)
  /-- A checkpoint file that does not decode. -/
  | checkpoint (path : Path) (message : String)
  | closed
  deriving Repr, BEq

/-- The kind of an error, as a name. -/
def WalError.kind : WalError → String
  | .io _ => "Io"
  | .json _ => "Json"
  | .lockHeldInProcess _ => "LockHeldInProcess"
  | .lockHeldExternally _ => "LockHeldExternally"
  | .corrupted _ _ _ => "Corrupted"
  | .noBackup _ => "NoBackup"
  | .checkpoint _ _ => "Checkpoint"
  | .closed => "Closed"

/-- The message of an error. -/
def WalError.message : WalError → String
  | .io e => "IO error: " ++ e.text
  | .json m => "JSON error: " ++ m
  | .lockHeldInProcess p => "WAL lock " ++ p ++ " is already held by this process"
  | .lockHeldExternally p => "WAL lock " ++ p ++ " is held by another process"
  | .corrupted p size mark => "WAL " ++ p ++ " is corrupted: " ++ toString size ++
      " bytes on disk, checkpoint at " ++ toString mark
  | .noBackup p => "no backup at " ++ p ++ " to recover from"
  | .checkpoint p m => "unreadable checkpoint " ++ p ++ ": " ++ m
  | .closed => "WAL is closed"

end EntityLog.Log
