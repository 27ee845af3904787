import EntityLog.Time.Span
/-!
# Pipeline metrics

Counters, a gauge, a distribution of batch sizes and three timers. Counters and totals are
64-bit and wrap around; a timer records whole microseconds, truncated and capped at the largest
64-bit value, and keeps their count, total and maximum. The smallest batch size is reported as
zero while none was recorded.

A pipeline records to a live set of metrics or to one that discards everything.
-/

namespace EntityLog.Pipeline

open EntityLog.Time

/-- The modulus of 64-bit counters. -/
def wordSize : Nat := Nat.pow 2 64

/-- The largest 64-bit value. -/
def wordMax : Nat := wordSize - 1

/-- A 64-bit sum. -/
def wrapAdd (a b : Nat) : Nat := (a + b) % wordSize

/-- A timer: how many durations, their total and their maximum, in microseconds. -/
structure Timer where
  count : Nat := 0
  totalUs : Nat := 0
  maxUs : Nat := 0
  deriving Repr, BEq

/-- Records a duration. -/
def Timer.record (t : Timer) (d : Span) : Timer :=
  let us := min d.micros wordMax
  { count := wrapAdd t.count 1, totalUs := wrapAdd t.totalUs us, maxUs := max t.maxUs us }

/-- The mean in microseconds, zero when nothing was recorded. -/
def Timer.meanUs (t : Timer) : Nat := if t.count = 0 then 0 else t.totalUs / t.count

/-- A distribution of values: count, total, smallest and largest. The smallest starts at the
largest 64-bit value. -/
structure Distribution where
  count : Nat := 0
  total : Nat := 0
  least : Nat := wordMax
  most : Nat := 0
  deriving Repr, BEq

/-- Records a value. -/
def Distribution.record (d : Distribution) (v : Nat) : Distribution :=
  { count := wrapAdd d.count 1, total := wrapAdd d.total v, least := min d.least v,
    most := max d.most v }

/-- The smallest value as reported: zero while nothing was recorded. -/
def Distribution.min (d : Distribution) : Nat := if d.count = 0 then 0 else d.least

/-- The mean, zero when nothing was recorded. -/
def Distribution.mean (d : Distribution) : Nat := if d.count = 0 then 0 else d.total / d.count

/-- All metrics of a pipeline. -/
structure Metrics where
  dropped : Nat := 0
  saveErrors : Nat := 0
  processed : Nat := 0
  shutdownFlushed : Nat := 0
  queueSize : Nat := 0
  batchSize : Distribution := {}
  offerLatency : Timer := {}
  batchLatency : Timer := {}
  flushLatency : Timer := {}
  shutDown : Bool := false
  deriving Repr, BEq

/-- One thing a pipeline reports to its metrics. -/
inductive Report where
  | dropped (n : Nat)
  | saveError
  | processed (n : Nat)
  | shutdownFlushed (n : Nat)
  | batchSize (n : Nat)
  | offerLatency (d : Span)
  | batchLatency (d : Span)
  | flushLatency (d : Span)
  | queueSize (n : Nat)
  | shutdown

/-- Applies a report. -/
def Metrics.apply (m : Metrics) : Report → Metrics
  | .dropped n => { m with dropped := wrapAdd m.dropped n }
  | .saveError => { m with saveErrors := wrapAdd m.saveErrors 1 }
  | .processed n => { m with processed := wrapAdd m.processed n }
  | .shutdownFlushed n => { m with shutdownFlushed := wrapAdd m.shutdownFlushed n }
  | .batchSize n => { m with batchSize := m.batchSize.record n }
  | .offerLatency d => { m with offerLatency := m.offerLatency.record d }
  | .batchLatency d => { m with batchLatency := m.batchLatency.record d }
  | .flushLatency d => { m with flushLatency := m.flushLatency.record d }
  | .queueSize n => { m with queueSize := n }
  | .shutdown => { m with shutDown := true }

/-- The stable names of the counters, with their values, in a fixed order. -/
def Metrics.counters (m : Metrics) : List (String × Nat) :=
  [("entitylog.queue.dropped", m.dropped), ("entitylog.batch.save.errors", m.saveErrors),
    ("entitylog.batch.processed", m.processed),
    ("entitylog.shutdown.flushed.count", m.shutdownFlushed),
    ("entitylog.queue.size", m.queueSize)]

/-- Where a pipeline's metrics go: kept, or discarded. -/
inductive Recorder where
  | live (m : Metrics)
  | discard

/-- Applies a report to a recorder. -/
def Recorder.apply : Recorder → Report → Recorder
  | .live m, r => .live (m.apply r)
  | .discard, _ => .discard

/-- The metrics kept, if any. -/
def Recorder.snapshot : Recorder → Option Metrics
  | .live m => some m
  | .discard => none

end EntityLog.Pipeline
