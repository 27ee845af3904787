import EntityLog.Files.Path
import EntityLog.Time.Instant
/-!
# The files of a log

A log named `changes.log` lives beside its checkpoint `changes.log.checkpoint`, its backup
`changes.log.backup` and its lock `changes.log.lock`. A damaged live file is moved aside to
`corrupted-<time>-changes.log`, the time written as year to millisecond without separators.
-/

namespace EntityLog.Log

open EntityLog.Files
open EntityLog.Time

/-- The file name of a path, or nothing. -/
def nameOf (p : Path) : String := (Path.fileName p).getD ""

/-- The path beside `live` whose name is the live name and a suffix. -/
def sibling (live : Path) (suffix : String) : Path :=
  Path.withFileName live (nameOf live ++ "." ++ suffix)

/-- The files that make up one log. -/
structure LogPaths where
  live : Path
  checkpoint : Path
  backup : Path
  lock : Path
  deriving Repr, BEq

/-- The files of the log at `live`. -/
def LogPaths.forLog (live : Path) : LogPaths :=
  ⟨live, sibling live "checkpoint", sibling live "backup", sibling live "lock"⟩

/-- Where a damaged live file is moved at time `now`. -/
def LogPaths.corrupted (p : LogPaths) (now : Instant) : Path :=
  Path.withFileName p.live ("corrupted-" ++ now.stamp ++ "-" ++ nameOf p.live)

/-- The temporary file a checkpoint is written to before it replaces the checkpoint. -/
def temporaryOf (p : Path) : Path := Path.withFileName p (nameOf p ++ ".tmp")

end EntityLog.Log
