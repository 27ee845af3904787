import EntityLog.Pipeline.Processor
/-!
# The worker pool

While a pipeline runs, batch workers and a timed flusher work beside the caller, all on one
processor: one queue, one set of metrics, one sink. A worker drains a full batch when one is
queued and, once the stop signal is raised, drains batches until one comes back empty and
returns; the flusher drains one batch per interval until the signal wakes it. Stopping, the
caller closes the queue, raises the signal, waits for the threads and then for the queue to
empty (each up to a deadline), runs the final flush and takes what is still queued. Producers
offer records at any time; a closed or full queue refuses them.

Each access to what the threads share is a step of its own, and draining a batch is two steps,
taking it off the queue and handing it to the sink, so any thread may move between the two. A
deadline is not a clock here: the caller may stop waiting at any of its steps. A run is a
schedule, the thread that moves at each step.
-/

namespace EntityLog.Pipeline

open EntityLog.Record EntityLog.Time

/-- Where a batch worker is in its loop. -/
inductive Worker where
  /-- At the top of its loop, about to look at the stop signal. -/
  | polling
  /-- The signal was not raised: about to look whether a full batch is queued. -/
  | checking
  /-- About to drain a batch: a full one was queued, or, `afterStop`, it drains until a batch
  comes back empty. -/
  | draining (afterStop : Bool)
  /-- Inside a drain: `batch` was taken off the queue and goes to the sink next. -/
  | handing (batch : List ChangeRecord) (afterStop : Bool)
  /-- Out of its loop for good. -/
  | returned
  deriving Repr, DecidableEq

/-- Where a worker goes once it handed `batch` over: back to polling after a drain for a full
batch; after the signal, to the next drain, or out of its loop when the batch was empty. -/
def Worker.afterHanding (batch : List ChangeRecord) : (afterStop : Bool) → Worker
  | false => .polling
  | true => if batch.isEmpty then .returned else .draining true

/-- Where the timed flusher is in its loop. -/
inductive Flusher where
  /-- Waiting out an interval. -/
  | waiting
  /-- Woke without the signal: about to drain a batch. -/
  | flushing
  /-- Inside a flush: `batch` was taken off the queue and goes to the sink next. -/
  | handing (batch : List ChangeRecord)
  /-- Woke to the signal and left its loop. -/
  | exited
  deriving Repr, DecidableEq

/-- What a stop did: whether every worker and the flusher had left its loop when the caller stopped
waiting for them, whether the queue had emptied when it stopped waiting for that, the final
flush, and the number of records left over. -/
structure ShutdownReport where
  workersExited : Bool := false
  drained : Bool := false
  finalFlush : FinalFlush := {}
  residue : Nat := 0
  deriving Repr, BEq

/-- Where the caller is in stopping the pipeline; `report` is what the stop has found so far. -/
inductive Caller where
  | running
  /-- The queue is closed; the signal is next. -/
  | closed
  /-- The signal is raised; waiting for the threads, up to a deadline. -/
  | joining
  /-- Done waiting for the threads; waiting for the queue to empty, up to a deadline. -/
  | waiting (report : ShutdownReport)
  /-- In the final flush with `rounds` rounds left (none once a round came back empty). -/
  | flushing (report : ShutdownReport) (rounds : Nat)
  /-- Inside a final flush round: `batch` was taken off the queue and goes to the sink next. -/
  | handing (batch : List ChangeRecord) (report : ShutdownReport) (rounds : Nat)
  /-- The stop is over, and `residue` is what was still queued after the final flush. -/
  | finished (report : ShutdownReport) (residue : List ChangeRecord)
  deriving Repr

/-- Whether the caller has begun to stop the pipeline. -/
def Caller.stopping : Caller → Bool
  | .running => false
  | _ => true

/-- A final flush round that handed over `batch`, which the sink accepted when `ok`: one round
more, and the records drained and persisted. -/
def FinalFlush.round (acc : FinalFlush) (batch : List ChangeRecord) (ok : Bool) : FinalFlush :=
  { rounds := acc.rounds + 1, drained := acc.drained + batch.length,
    persisted := acc.persisted + if ok then batch.length else 0 }

namespace Processor

/-- Takes the oldest records, at most a batch of them, off the queue: the first half of draining
a batch. -/
def takeBatch (p : Processor) : Processor × List ChangeRecord :=
  let (q, batch) := p.queue.drain p.batchSize
  ({ p with queue := q }, batch)

/-- A producer's offer, counted as logging a record counts it: the offer's latency, and a drop
when the queue refuses the record. -/
def offer (p : Processor) (r : ChangeRecord) : Processor :=
  let (q, accepted) := p.queue.offer r
  let p := { p with queue := q }.report (.offerLatency Span.zero)
  if accepted then p else p.report (.dropped 1)

end Processor

/-- The threads of a running pipeline with `n` workers, and what they share: the processor and
the stop signal. `rounds` bounds the final flush. -/
structure Pool (n : Nat) where
  processor : Processor
  workers : Fin n → Worker
  flusher : Flusher
  caller : Caller
  signalled : Bool
  rounds : Nat

namespace Pool

/-- The thread that moves next: a worker, the flusher, the caller, or a producer offering a
record. -/
inductive Thread (n : Nat) where
  | worker (i : Fin n)
  | flusher
  | caller
  | producer (r : ChangeRecord)
  deriving DecidableEq

variable {n : Nat}

/-- The workers and the flusher still in their loops, workers first. -/
def stragglers (P : Pool n) : List (Thread n) :=
  ((List.finRange n).filter (P.workers · != .returned)).map .worker ++
    if P.flusher = .exited then [] else [.flusher]

/-- A pool just spawned on a processor: every worker polling, the flusher waiting, no signal. -/
def spawn (p : Processor) (rounds : Nat) : Pool n :=
  ⟨p, fun _ => .polling, .waiting, .running, false, rounds⟩

/-- The pool with worker `i` at `w`. -/
def setWorker (P : Pool n) (i : Fin n) (w : Worker) : Pool n :=
  { P with workers := fun j => if j = i then w else P.workers j }

variable {m : Type → Type} [Monad m] (save : List ChangeRecord → m SaveOutcome)

/-- A step of worker `i`. -/
def workerStep (P : Pool n) (i : Fin n) : m (Pool n) :=
  match P.workers i with
  | .polling => return P.setWorker i (if P.signalled then .draining true else .checking)
  | .checking =>
    -- a worker that finds no full batch waits out its interval and starts over
    return P.setWorker i
      (if P.processor.queue.size ≥ P.processor.batchSize then .draining false else .polling)
  | .draining afterStop =>
    let (p, batch) := P.processor.takeBatch
    return { P.setWorker i (.handing batch afterStop) with processor := p }
  | .handing batch afterStop => do
    let (p, _) ← P.processor.persist save batch
    return { P.setWorker i (Worker.afterHanding batch afterStop) with processor := p }
  | .returned => return P

/-- A step of the flusher. -/
def flusherStep (P : Pool n) : m (Pool n) :=
  match P.flusher with
  | .waiting => return { P with flusher := if P.signalled then .exited else .flushing }
  | .flushing =>
    let (p, batch) := P.processor.takeBatch
    return { P with processor := p, flusher := .handing batch }
  | .handing batch => do
    let (p, _) ← P.processor.persist save batch
    return { P with processor := p.report (.flushLatency Span.zero), flusher := .waiting }
  | .exited => return P

/-- A step of the caller stopping the pipeline. -/
def callerStep (P : Pool n) : m (Pool n) :=
  match P.caller with
  | .running =>
    return { P with processor := { P.processor with queue := P.processor.queue.close },
                    caller := .closed }
  | .closed => return { P with signalled := true, caller := .joining }
  | .joining => return { P with caller := .waiting { workersExited := P.stragglers.isEmpty } }
  | .waiting report =>
    return { P with
      caller := .flushing { report with drained := P.processor.queue.isEmpty } P.rounds }
  | .flushing report 0 =>
    let (q, residue) := P.processor.queue.drainAll
    let p := ({ P.processor with queue := q }).report
      (.shutdownFlushed report.finalFlush.persisted)
    return { P with processor := if residue.isEmpty then p else p.report (.dropped residue.length),
                    caller := .finished { report with residue := residue.length } residue }
  | .flushing report (k + 1) =>
    let (p, batch) := P.processor.takeBatch
    return { P with processor := p, caller := .handing batch report k }
  | .handing batch report k => do
    let (p, ok) ← P.processor.persist save batch
    let report := { report with finalFlush := report.finalFlush.round batch ok }
    return { P with processor := p,
                    caller := .flushing report (if batch.isEmpty then 0 else k) }
  | .finished _ _ => return P

/-- A step of one thread. -/
def step (P : Pool n) : Thread n → m (Pool n)
  | .worker i => P.workerStep save i
  | .flusher => P.flusherStep save
  | .caller => P.callerStep save
  | .producer r => return { P with processor := P.processor.offer r }

/-- Runs a schedule: each thread in it takes one step, in order. -/
def run (P : Pool n) (schedule : List (Thread n)) : m (Pool n) :=
  schedule.foldlM (fun P t => P.step save t) P

end Pool

end EntityLog.Pipeline
