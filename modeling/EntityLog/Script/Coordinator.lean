import EntityLog.Script.Processor
import EntityLog.Script.Files
import EntityLog.Pipeline.Process
import EntityLog.Daemon.Ingest
import EntityLog.Config.Codec
/-!
# Scripts of coordinators

A coordinator script runs one or two coordinators on one machine, each with its own test sink
and metrics, each as caller 0 of its process. A relative log path is taken inside the working
directory. Every step is answered with the coordinator's phase after it.

After each step the threads of every pool come to rest: a running pool's workers drain the full
batches, and a signalled pool's threads leave their loops. A stop goes through its stages with
the threads coming to rest between them. The timed flusher ticks only while a step waits for the
sink, and only when its interval fits in the waiting time.

Records logged by a step are shown by their id; records made from ingested lines carry a random
id and the time, so they are shown by their entity, operation and changes, and once one is in a
log, the log's position is not shown.
-/

namespace EntityLog.Script

open EntityLog.Json EntityLog.Record EntityLog.Config

/-- A coordinator with `threads` workers per pool in its process, its test sink, the ids of the
records logged by steps, the totals of lines ingested, and whether an ingested record went into
its log. -/
structure Station where
  threads : Nat
  process : Pipeline.Process threads
  sink : Pipeline.TestSink
  explicit : List RecordId := []
  stats : Daemon.IngestStats := {}
  stamped : Bool := false

/-- The coordinator of a station. -/
def Station.coordinator (st : Station) : Pipeline.Coordinator st.threads := st.process.coordinator

/-- The machine and the coordinators on it. -/
structure Plant where
  machine : Files.Machine
  stations : List Station

/-- Saves a batch with the test sink. -/
def testSave (batch : List ChangeRecord) : Pipeline.World Pipeline.TestSink Pipeline.SaveOutcome :=
  modifyGet fun (m, s) => let (s, o) := s.save batch; (o, (m, s))

/-- The coordinator of an index. -/
def Plant.station (p : Plant) (i : Nat) : Outcome Station :=
  match p.stations[i]? with
  | some st => .ok st
  | none => bad "no such coordinator"

/-- Replaces the coordinator of an index. -/
def Plant.put (p : Plant) (i : Nat) (st : Station) : Plant :=
  { p with stations := p.stations.set i st }

/-- Runs a computation of the process of an index. -/
def Plant.run {α : Type} (p : Plant) (i : Nat) (st : Station)
    (x : Pipeline.OnProcess st.threads Pipeline.TestSink α) : Plant × Station × α :=
  let ((a, P), (m, s)) := (x.run st.process).run (p.machine, st.sink)
  let st := { st with process := P, sink := s }
  ({ p with machine := m, stations := p.stations.set i st }, st, a)

/-- Lets the threads of every coordinator come to rest. -/
def Plant.settle (p : Plant) : Plant :=
  (List.range p.stations.length).foldl (fun p i =>
    match p.stations[i]? with
    | some st =>
      (p.run i st (Pipeline.Process.settle testSave
        (Pipeline.Process.restFuel st.coordinator))).1
    | none => p) p

/-- The answer caller 0 got, if its call ended. -/
def answerOf {n : Nat} : List (Pipeline.Note n) → Option Pipeline.Answer
  | [] => none
  | .answered 0 a :: _ => some a
  | _ :: rest => answerOf rest

/-- Logs a record as caller 0, both steps at once. -/
def logNow {n : Nat} (r : ChangeRecord) :
    Pipeline.OnProcess n Pipeline.TestSink (Except Pipeline.LifecycleError Pipeline.Logged) := do
  let first ← Pipeline.Process.step testSave (.call 0 (.log r))
  let notes ← match answerOf first with
    | some _ => pure first
    | none => Pipeline.Process.step testSave (.resume 0)
  match answerOf notes with
  | some (.logged _ result) => return result
  | _ => return .error .notRunning

/-- Stops as caller 0, the threads coming to rest between the stages of the stop, in at most
`fuel` stages. -/
def stopNow {n : Nat} (fuel : Nat) :
    Pipeline.OnProcess n Pipeline.TestSink Pipeline.ShutdownReport := do
  let rec go : Nat → Pipeline.OnProcess n Pipeline.TestSink Pipeline.ShutdownReport
    | 0 => return {}
    | k + 1 => do
      Pipeline.Process.settle testSave (Pipeline.Process.restFuel (← get).coordinator)
      match answerOf (← Pipeline.Process.step testSave (.resume 0)) with
      | some (.stopped report) => return report
      | _ => go k
  match answerOf (← Pipeline.Process.step testSave (.call 0 .stop)) with
  | some (.stopped report) => return report
  | _ => go fuel

/-- How a record is shown: by its id when a step logged it, else by its content. -/
def Station.display (st : Station) (r : ChangeRecord) : Value :=
  if st.explicit.contains r.id then str r.id.render
  else obj [("entity", str r.entity.encode), ("operation", str r.operation.name),
    ("changes", str r.changes.encode), ("has_context", boolV r.context.isSome)]

/-- The error object of a lifecycle error. -/
def lifecycleErr (e : Pipeline.LifecycleError) : Value := errObj e.kind e.message

/-- The answer of logging a record. -/
def loggedV (r : Except Pipeline.LifecycleError Pipeline.Logged) : Value :=
  match r with
  | .ok l => str l.name
  | .error e => lifecycleErr e

/-- A shutdown report, without the time taken. -/
def reportV (r : Pipeline.ShutdownReport) : Value :=
  obj [("workers_exited", boolV r.workersExited), ("drained", boolV r.drained),
    ("final_flush", finalFlushV r.finalFlush), ("residue", nat r.residue)]

/-- Ingestion totals. -/
def statsV (s : Daemon.IngestStats) : Value :=
  obj [("lines", nat s.lines), ("queued", nat s.queued), ("dropped", nat s.dropped),
    ("skipped", nat s.skipped), ("rejected", nat s.rejected), ("failed", nat s.failed)]

/-- Adds the phase to a step's answer. -/
def withState (v : Value) (phase : Pipeline.Phase) : Value :=
  match v with
  | .object ms => .object (ms ++ [("state", str phase.name)])
  | other => obj [("ok", other), ("state", str phase.name)]

/-- Logs records one by one, each answer in order. -/
def logAll (p : Plant) (i : Nat) : List (Outcome ChangeRecord) → Plant × List Value
  | [] => (p, [])
  | r :: rest =>
    match r, p.station i with
    | .ok r, .ok st =>
      let st := { st with explicit := st.explicit ++ [r.id] }
      let (p, _, res) := p.run i st (logNow r)
      let (p, vs) := logAll p i rest
      (p, loggedV res :: vs)
    | .error r, _ =>
      let (p, vs) := logAll p i rest
      (p, r.toValue :: vs)
    | .ok _, .error r =>
      let (p, vs) := logAll p i rest
      (p, r.toValue :: vs)

/-- Waits until the sink has been called `n` times: worker 0 drains a full batch, or else a
flusher that ticks within the waiting time drains what is queued. -/
def waitAttempts (p : Plant) (i : Nat) (n : Nat) : (fuel : Nat) → Plant × Bool
  | 0 => (p, false)
  | fuel + 1 =>
    match p.station i with
    | .error _ => (p, false)
    | .ok st =>
      let c := st.coordinator
      let g := c.detached.length
      if st.sink.attempts ≥ n then (p, true)
      else if c.active.isSome && c.config.batchSize ≤ c.queueSize then
        let (p, _, _) := p.run i st (Pipeline.Process.run testSave
          [.worker g 0, .worker g 0, .worker g 0, .worker g 0])
        waitAttempts p i n fuel
      else if c.config.flushInterval.totalNanos ≤ 3000000000 && c.queueSize > 0 then
        let (p, _, _) := p.run i st (Pipeline.Process.run testSave
          [.flusher g, .flusher g, .flusher g])
        waitAttempts p i n fuel
      else (p, false)

/-- One coordinator step, answered with the phase after it. -/
def coordinatorStep (p : Plant) (o : Value) : Outcome (Plant × Value) := do
  let i := o.natD "c" 0
  let st ← p.station i
  let paths := Log.LogPaths.forLog st.coordinator.config.walPath
  let (p, v) ← match ← fileStep paths p.machine o with
    | some (m, v) => pure ({ p with machine := m }, v)
    | none =>
      match stepName o with
      | "start" =>
        let (p, _, notes) := p.run i st (Pipeline.Process.step testSave (.call 0 .start))
        pure (p, match answerOf notes with
          | some (.started (.error e)) => lifecycleErr e
          | _ => okV (str "ok"))
      | "stop" =>
        let rounds := st.coordinator.config.shutdown.finalFlushRounds
        let (p, _, r) := p.run i st (stopNow (2 * rounds + 16))
        pure (p, okV (reportV r))
      | "drop" =>
        let (p, _, _) := p.run i st (Pipeline.Process.coordinate Pipeline.Coordinator.drop)
        pure (p, okV .null)
      | "log" =>
        let (p, vs) := logAll p i [specRecord ((o.get? "record").getD .null)]
        pure (p, match vs with
          | [.object ((("error", e)) :: rest)] => .object (("error", e) :: rest)
          | [v] => okV v
          | _ => okV .null)
      | "log_many" =>
        let first ← o.nat? "from"
        let stop ← o.nat? "to"
        let specs := (List.range' first (stop - first)).map fun k =>
          let base := [("n", nat k)]
          let withEntity := match o.get? "entity" with
            | some e => base ++ [("entity", e)]
            | none => base
          specRecord (obj withEntity)
        let (p, vs) := logAll p i specs
        pure (p, okV (arr vs))
      | "ingest" =>
        let line ← o.str? "line"
        let before := st.stats
        let (p, st, stats) := p.run i st do
          let (stats, record) ← StateT.lift (Pipeline.World.onMachine (Daemon.readLine line st.stats))
          match record with
          | none => pure stats
          | some r => return stats.count (← logNow r)
        let stamped := st.stamped || stats.queued > before.queued || stats.dropped > before.dropped
        pure (p.put i { st with stats := stats, stamped := stamped }, okV (statsV stats))
      | "state" => pure (p, okV (str st.coordinator.phase.name))
      | "queue_size" => pure (p, okV (nat st.coordinator.queueSize))
      | "checkpoint" =>
        pure (p, okV (match st.coordinator.checkpoint with
          | none => obj [("running", boolV false)]
          | some c => obj [("running", boolV true),
              ("position", if st.stamped then .null else nat c.position)]))
      | "sink" =>
        pure (p, okV (obj [("attempts", nat st.sink.attempts),
          ("batches", arr (st.sink.saved.map fun b => arr (b.map st.display)))]))
      | "records" => pure (p, okV (arr (st.sink.records.map st.display)))
      | "metrics" =>
        pure (p, okV (match st.coordinator.recorder.snapshot with
          | some m => benchMetricsV m
          | none => .null))
      | "behavior" =>
        let beh ← behaviorOf o
        pure (p.put i { st with sink := { st.sink with behavior := beh } }, okV .null)
      | "delay_ms" => pure (p, okV .null)
      | "config" => pure (p, okV (str st.coordinator.config.encode))
      | "replay" =>
        let (r, m) := (Log.DurableLog.replay paths.live).run.run p.machine
        pure ({ p with machine := m }, match r with
          | .ok rs => okV (arr (rs.map st.display))
          | .error e => walErr e)
      | "wait_attempts" =>
        let n ← o.nat? "n"
        let (p, ok) := waitAttempts p i n (n + st.coordinator.queueSize + 2)
        pure (p, okV (boolV ok))
      | _ => unknownStep o
  let p := p.settle
  let st ← p.station i
  return (p, withState v st.coordinator.phase)

/-- The configuration under a key, with a relative log path taken inside the working directory. -/
def coordinatorConfig (v : Value) (key : String) : Outcome (Option PipelineConfig) := do
  match v.get? key with
  | none => return none
  | some c =>
    let config ← match decodeValue pipelineDecoder c with
      | .ok config => pure config
      | .error e => jsonErr e
    let walPath := if Files.Path.isAbsolute config.walPath then config.walPath
      else Files.Path.join workDir config.walPath
    return some { config with walPath := walPath }

/-- Runs a coordinator script. -/
def coordinatorScript (v : Value) : Outcome Value := do
  let behavior ← match v.get? "sink" with
    | some (.string "fail") => pure Pipeline.Behavior.fail
    | some (.string "panic") => pure .panic
    | _ => pure .accept
  let first := (← coordinatorConfig v "config").getD
    { walPath := Files.Path.join workDir (({} : PipelineConfig).walPath) }
  let second ← coordinatorConfig v "config2"
  let station (c : PipelineConfig) : Station :=
    { threads := c.workerThreads, process := .new (Pipeline.Coordinator.new c (.live {})),
      sink := { behavior := behavior } }
  let stations := [station first] ++ (second.map station).toList
  let plant : Plant := ⟨baseMachine, stations⟩
  return arr (← runSteps coordinatorStep plant (← v.arr? "ops"))

end EntityLog.Script
