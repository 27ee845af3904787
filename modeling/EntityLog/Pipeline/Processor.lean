import EntityLog.Pipeline.Queue
import EntityLog.Pipeline.Metrics
import EntityLog.Pipeline.Sink
/-!
# The batch processor

A processor drains its queue in batches of at most its batch size and hands each batch to a
sink. An empty batch is never handed over. Every handed batch is counted in the metrics by size
and latency, together with the queue size after it; an accepted batch counts its records as
processed, a refused or crashed one counts as a save error, and its records are gone either way.

A final flush repeats draining for at most a number of rounds, stopping after the first round
that finds the queue empty.

The sink is any monadic save function, so the same processor drives a test sink, a file sink
or a sink inside a larger system state.
-/

namespace EntityLog.Pipeline

open EntityLog.Record
open EntityLog.Time

/-- The outcome of a final flush: rounds run, records drained, records accepted. -/
structure FinalFlush where
  rounds : Nat := 0
  drained : Nat := 0
  persisted : Nat := 0
  deriving Repr, BEq

/-- A processor: its queue, its metrics, and its batch size. -/
structure Processor where
  queue : BoundedQueue ChangeRecord
  recorder : Recorder
  batchSize : Nat

namespace Processor

variable {m : Type → Type} [Monad m] (save : List ChangeRecord → m SaveOutcome)

/-- Reports to the metrics. -/
def report (p : Processor) (r : Report) : Processor := { p with recorder := p.recorder.apply r }

/-- Hands a batch to the sink and accounts for it; `true` when it was accepted (or empty). -/
def persist (p : Processor) (batch : List ChangeRecord) : m (Processor × Bool) := do
  if batch.isEmpty then return (p, true)
  let outcome ← save batch
  let p := if outcome.ok then p.report (.processed batch.length) else p.report .saveError
  let p := ((p.report (.batchSize batch.length)).report (.batchLatency Span.zero)).report
    (.queueSize p.queue.size)
  return (p, outcome.ok)

/-- Drains one batch and persists it: the number drained and whether it was accepted. -/
def drainBatch (p : Processor) : m (Processor × Nat × Bool) := do
  let (q, batch) := p.queue.drain p.batchSize
  let (p, ok) ← persist save { p with queue := q } batch
  return (p, batch.length, ok)

/-- A timed flush: one batch, then the flush latency. -/
def flush (p : Processor) : m (Processor × Nat) := do
  let (p, n, _) ← drainBatch save p
  return (p.report (.flushLatency Span.zero), n)

/-- Drains batches until one comes back empty, as a worker does once told to stop; at most
`rounds` batches. -/
def drainRounds (p : Processor) : (rounds : Nat) → m Processor
  | 0 => return p
  | k + 1 => do
    let (p, n, _) ← drainBatch save p
    if n = 0 then return p else drainRounds p k

/-- Drains the whole queue in batches: one more round than there are records is enough, since
each round that finds records takes at least one. -/
def drainOut (p : Processor) : m Processor := drainRounds save p (p.queue.size + 1)

/-- Final flush rounds, at most `rounds` more, accumulating into `acc`. -/
def flushRounds (p : Processor) (acc : FinalFlush) : (rounds : Nat) → m (Processor × FinalFlush)
  | 0 => return (p, acc)
  | k + 1 => do
    let (p, n, ok) ← drainBatch save p
    let acc := { acc with rounds := acc.rounds + 1 }
    if n = 0 then return (p, acc)
    else
      let persisted := acc.persisted + (if ok then n else 0)
      flushRounds p { acc with drained := acc.drained + n, persisted := persisted } k

/-- The final flush: at most `rounds` batches, stopping at the first empty one. -/
def finalFlush (p : Processor) (rounds : Nat) : m (Processor × FinalFlush) :=
  flushRounds save p {} rounds

end Processor

end EntityLog.Pipeline
