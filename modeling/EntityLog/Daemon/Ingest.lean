import EntityLog.Daemon.Request
import EntityLog.Pipeline.Process
/-!
# Ingesting request lines

Each line read is counted. A blank line stops there; a line that is not a valid request is
counted as rejected. A valid request becomes a record with a fresh random id, the current time
and the context of the submitting thread and host, and is logged with the coordinator; the
answer is counted as queued, dropped or skipped, and a refusal as failed. Ingestion never stops
on a bad line.
-/

namespace EntityLog.Daemon

open EntityLog.Files EntityLog.Record EntityLog.Pipeline

/-- Running totals of one ingestion session. -/
structure IngestStats where
  lines : Nat := 0
  queued : Nat := 0
  dropped : Nat := 0
  skipped : Nat := 0
  rejected : Nat := 0
  failed : Nat := 0
  deriving Repr, BEq

/-- Adds the outcome of logging one record to the totals. -/
def IngestStats.count (s : IngestStats) : Except LifecycleError Logged → IngestStats
  | .ok .queued => { s with queued := s.queued + 1 }
  | .ok .dropped => { s with dropped := s.dropped + 1 }
  | .ok .skipped => { s with skipped := s.skipped + 1 }
  | .error _ => { s with failed := s.failed + 1 }

/-- The record for request parts, made now on this machine: a random id, the current time, and
the calling thread and host. -/
def RecordParts.stamp (p : RecordParts) : StateM Machine ChangeRecord := do
  let m ← get
  set { m with draws := m.draws + 1 }
  let now := m.clock m.calls
  let context : SubmissionContext := ⟨m.thread, m.hostname, now⟩
  return p.toRecord (RecordId.version4 (m.random m.draws)) now context

/-- Reads one line: counts it, as rejected when it is not a valid request, and gives the record
to log when it is one. -/
def readLine (line : String) (stats : IngestStats) :
    StateM Machine (IngestStats × Option ChangeRecord) := do
  let stats := { stats with lines := stats.lines + 1 }
  match parseLine line with
  | .ok none => return (stats, none)
  | .error _ => return ({ stats with rejected := stats.rejected + 1 }, none)
  | .ok (some parts) => return (stats, some (← parts.stamp))

end EntityLog.Daemon
