import EntityLog.Script.Records
import EntityLog.Pipeline.Processor
/-!
# Scripts of queues, metrics and processors

A queue script offers, drains and closes a queue of JSON values and answers each step with the
queue's size, room and state. A metrics script applies reports to a recorder and answers with a
snapshot. A processor script drives a processor over a test sink: records are offered, flushed,
persisted or flushed finally, and each step answers with the queue size, the sink's calls and
batches, and the metrics.
-/

namespace EntityLog.Script

open EntityLog.Json EntityLog.Record

/-! ## Queue -/

/-- A queue of JSON values. -/
abbrev ValueQueue := Pipeline.BoundedQueue Value

/-- One queue step, answered with the result and the queue's size, room and state. -/
def queueStep (q : ValueQueue) (o : Value) : Outcome (ValueQueue × Value) := do
  let (q, result) ← match o.get? "op" with
    | some (.string "offer") =>
      let (q, ok) := q.offer ((o.get? "v").getD .null)
      pure (q, boolV ok)
    | some (.string "drain") =>
      let prefill := match o.get? "prefill" with
        | some (.array xs) => xs
        | _ => []
      let (q, buf, moved) := q.drainInto prefill (← o.nat? "max")
      pure (q, obj [("moved", nat moved), ("buf", arr buf)])
    | some (.string "drain_all") => let (q, xs) := q.drainAll; pure (q, arr xs)
    | some (.string "close") => pure (q.close, .null)
    | some (.string "size") => pure (q, nat q.size)
    | some (.string "remaining") => pure (q, nat q.remaining)
    | some (.string "capacity") => pure (q, nat q.capacity)
    | some (.string "is_empty") => pure (q, boolV q.isEmpty)
    | some (.string "is_closed") => pure (q, boolV q.closed)
    | _ => unknownStep o
  return (q, obj [("result", result), ("size", nat q.size), ("remaining", nat q.remaining),
    ("closed", boolV q.closed)])

/-- Runs a queue script on an empty queue of the given capacity. -/
def queueScript (v : Value) : Outcome Value := do
  let cap ← v.nat? "capacity"
  return arr (← runSteps queueStep (Pipeline.BoundedQueue.empty cap) (← v.arr? "ops"))

/-! ## Metrics -/

/-- A timer: count, total and longest in microseconds. -/
def timerV (t : Pipeline.Timer) : Value :=
  obj [("count", nat t.count), ("total_us", nat t.totalUs), ("max_us", nat t.maxUs)]

/-- A distribution: count, total, least and most. -/
def distributionV (d : Pipeline.Distribution) : Value :=
  obj [("count", nat d.count), ("total", nat d.total), ("min", nat d.min), ("max", nat d.most)]

/-- All metrics with their means and counters. -/
def snapshotV (m : Pipeline.Metrics) : Value :=
  obj [("dropped", nat m.dropped), ("save_errors", nat m.saveErrors),
    ("processed", nat m.processed),
    ("shutdown_flushed", nat m.shutdownFlushed), ("queue_size", nat m.queueSize),
    ("batch_size", distributionV m.batchSize), ("offer_latency", timerV m.offerLatency),
    ("batch_latency", timerV m.batchLatency), ("flush_latency", timerV m.flushLatency),
    ("batch_size_mean", nat m.batchSize.mean),
    ("offer_latency_mean_us", nat m.offerLatency.meanUs),
    ("batch_latency_mean_us", nat m.batchLatency.meanUs),
    ("flush_latency_mean_us", nat m.flushLatency.meanUs),
    ("counters", arr (m.counters.map fun (k, n) => arr [str k, nat n])),
    ("shut_down", boolV m.shutDown)]

/-- The span of a step, from whole seconds and nanoseconds. -/
def spanOf (o : Value) : Outcome Time.Span := do
  let secs := o.natD "secs" 0
  let nanos := o.natD "nanos" 0
  if nanos ≥ 1000000000 then bad "nanos must be below 1e9" else pure ⟨secs, nanos⟩

/-- The report a metrics step makes; none for a snapshot. -/
def reportOf (o : Value) : Outcome (Option Pipeline.Report) :=
  match o.get? "op" with
  | some (.string "dropped") => return some (.dropped (← o.nat? "n"))
  | some (.string "processed") => return some (.processed (← o.nat? "n"))
  | some (.string "shutdown_flushed") => return some (.shutdownFlushed (← o.nat? "n"))
  | some (.string "save_error") => return some .saveError
  | some (.string "batch_size") => return some (.batchSize (← o.nat? "n"))
  | some (.string "offer_latency") => return some (.offerLatency (← spanOf o))
  | some (.string "batch_latency") => return some (.batchLatency (← spanOf o))
  | some (.string "flush_latency") => return some (.flushLatency (← spanOf o))
  | some (.string "gauge") => return some (.queueSize (← o.nat? "n"))
  | some (.string "shutdown") => return some .shutdown
  | some (.string "snapshot") => return none
  | _ => unknownStep o

/-- One metrics step, answered with the snapshot after it. -/
def metricsStep (r : Pipeline.Recorder) (o : Value) :
    Outcome (Pipeline.Recorder × Value) := do
  let r := match ← reportOf o with
    | some rep => r.apply rep
    | none => r
  return (r, match r.snapshot with
    | some m => snapshotV m
    | none => .null)

/-- Runs a metrics script on fresh metrics, kept or discarded. -/
def metricsScript (v : Value) : Outcome Value := do
  let recorder : Pipeline.Recorder := match v.get? "backend" with
    | some (.string "noop") | some (.string "arc_noop") => .discard
    | _ => .live {}
  return arr (← runSteps metricsStep recorder (← v.arr? "ops"))

/-! ## Processor -/

/-- A processor with its sink. -/
structure Bench where
  processor : Pipeline.Processor
  sink : Pipeline.BenchSink

/-- The metrics a processor step shows: counters, batch sizes and how many latencies were timed. -/
def benchMetricsV (m : Pipeline.Metrics) : Value :=
  obj [("dropped", nat m.dropped), ("save_errors", nat m.saveErrors),
    ("processed", nat m.processed),
    ("shutdown_flushed", nat m.shutdownFlushed), ("queue_size", nat m.queueSize),
    ("batch_size", distributionV m.batchSize), ("offer_count", nat m.offerLatency.count),
    ("batch_latency_count", nat m.batchLatency.count),
    ("flush_latency_count", nat m.flushLatency.count), ("shut_down", boolV m.shutDown)]

/-- Saves a batch with the bench sink. -/
def benchSave (batch : List ChangeRecord) : StateM Pipeline.BenchSink Pipeline.SaveOutcome :=
  modifyGet fun s => let (s, o) := s.save batch; (o, s)

/-- Runs a processor computation against the bench sink. -/
def onBench {α : Type} (b : Bench)
    (f : Pipeline.Processor → StateM Pipeline.BenchSink (Pipeline.Processor × α)) :
    Bench × α :=
  let ((p, a), s) := (f b.processor).run b.sink
  (⟨p, s⟩, a)

/-- The outcome of a final flush. -/
def finalFlushV (f : Pipeline.FinalFlush) : Value :=
  obj [("rounds", nat f.rounds), ("drained", nat f.drained), ("persisted", nat f.persisted)]

/-- The sink behavior a step names. -/
def behaviorOf (o : Value) : Outcome Pipeline.Behavior :=
  match o.get? "v" with
  | some (.string "accept") => .ok .accept
  | some (.string "fail") => .ok .fail
  | some (.string "panic") => .ok .panic
  | _ => bad "bad behavior"

/-- Offers records in order, with whether each was accepted. -/
def offerAll (q : Pipeline.BoundedQueue ChangeRecord) :
    List ChangeRecord → Pipeline.BoundedQueue ChangeRecord × List Bool
  | [] => (q, [])
  | r :: rest =>
    let (q, ok) := q.offer r
    let (q, oks) := offerAll q rest
    (q, ok :: oks)

/-- One processor step, answered with its result, the queue size, the sink's calls and batches, and
the metrics. -/
def benchStep (b : Bench) (o : Value) : Outcome (Bench × Value) := do
  let (b, result) ← match o.get? "op" with
    | some (.string "offer") =>
      match specRecord ((o.get? "record").getD .null) with
      | .ok r =>
        let (q, ok) := b.processor.queue.offer r
        pure ({ b with processor := { b.processor with queue := q } }, boolV ok)
      | .error r => pure (b, r.toValue)
    | some (.string "offer_many") =>
      let rs ← shorthandRange (← o.nat? "from") (← o.nat? "to")
      let (q, oks) := offerAll b.processor.queue rs
      pure ({ b with processor := { b.processor with queue := q } }, arr (oks.map boolV))
    | some (.string "flush") =>
      let (b, n) := onBench b (Pipeline.Processor.flush benchSave)
      pure (b, nat n)
    | some (.string "final_flush") =>
      let rounds ← o.nat? "rounds"
      let (b, f) := onBench b (fun p => Pipeline.Processor.finalFlush benchSave p rounds)
      pure (b, finalFlushV f)
    | some (.string "persist") =>
      match (← o.arr? "records").mapM specRecord with
      | .ok rs =>
        let (b, ok) := onBench b (fun p => Pipeline.Processor.persist benchSave p rs)
        pure (b, boolV ok)
      | .error r => pure (b, r.toValue)
    | some (.string "behavior") =>
      let beh ← behaviorOf o
      let sink := match b.sink with
        | .test s => Pipeline.BenchSink.test { s with behavior := beh }
        | .discard => .discard
      pure ({ b with sink := sink }, .null)
    | some (.string "close") =>
      pure ({ b with processor := { b.processor with queue := b.processor.queue.close } }, .null)
    | some (.string "batches") =>
      pure (b, arr (b.sink.view.saved.map fun bt => arr (bt.map fun r => str r.id.render)))
    | some (.string "records") =>
      pure (b, arr (b.sink.view.records.map fun r => str r.id.render))
    | some (.string "delay_ms") => pure (b, .null)
    | _ => unknownStep o
  let metrics := match b.processor.recorder.snapshot with
    | some m => benchMetricsV m
    | none => .null
  return (b, obj [("result", result), ("queue_size", nat b.processor.queue.size),
    ("attempts", nat b.sink.view.attempts),
    ("saved", arr (b.sink.view.saved.map fun bt => nat bt.length)), ("metrics", metrics)])

/-- Runs a processor script with the given batch size, capacity, sink and metrics. -/
def processorScript (v : Value) : Outcome Value := do
  let batchSize ← v.nat? "batch_size"
  let capacity := v.natD "capacity" 1000
  let sink : Pipeline.BenchSink := match v.get? "sink" with
    | some (.string "noop") => .discard
    | _ => .test {}
  let recorder : Pipeline.Recorder := match v.get? "metrics" with
    | some (.string "noop") => .discard
    | _ => .live {}
  let bench : Bench := ⟨⟨Pipeline.BoundedQueue.empty capacity, recorder, batchSize⟩, sink⟩
  return arr (← runSteps benchStep bench (← v.arr? "ops"))

end EntityLog.Script
