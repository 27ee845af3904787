import EntityLog.Pipeline.Pool
import EntityLog.Log.Durable
import EntityLog.Config.Basic
/-!
# The coordinator

A coordinator owns a pipeline's configuration and metrics and, while it runs, an open durable log
and a pool of threads, whose processor holds the queue. Starting checks the configuration, opens
the log, makes an empty queue and starts the workers and then the flusher; a failure at any point
leaves the coordinator stopped, with the log closed again. Logging a record asks the capture
filter, writes the record to the log and offers it to the queue, two steps between which other
threads move. Stopping takes a step per stage of the pool's stop and a last one that closes the
log. The threads outlive a stop that gave up waiting for them: their pool stays behind, detached,
and goes on. Pools are numbered in the order they started, the running one after every detached
one, and all of them report to the coordinator's one set of metrics.
-/

namespace EntityLog.Pipeline

open EntityLog.Files EntityLog.Log EntityLog.Config EntityLog.Record EntityLog.Time

/-- The phases of a pipeline. -/
inductive Phase where
  | stopped
  | starting
  | running
  | stopping
  deriving Repr, BEq, DecidableEq

/-- The name of a phase. -/
def Phase.name : Phase → String
  | .stopped => "stopped"
  | .starting => "starting"
  | .running => "running"
  | .stopping => "stopping"

/-- What became of a logged record. -/
inductive Logged where
  /-- In the log and queued for a batch. -/
  | queued
  /-- In the log, but refused by a full or closed queue. -/
  | dropped
  /-- Not captured; nothing written. -/
  | skipped
  deriving Repr, BEq, DecidableEq

/-- The name of an outcome of logging. -/
def Logged.name : Logged → String
  | .queued => "Queued"
  | .dropped => "Dropped"
  | .skipped => "Skipped"

/-- Why a coordinator refused a call. -/
inductive LifecycleError where
  /-- The log could not be opened. -/
  | init (e : WalError)
  /-- The configuration is out of range. -/
  | config (e : ConfigError)
  /-- The thread of this name could not be started. -/
  | spawn (name : String) (e : IoFault)
  | alreadyStarted (phase : Phase)
  | notRunning
  /-- The log refused a write. -/
  | write (e : WalError)
  deriving Repr, BEq

/-- The name of the kind of a lifecycle error, with the kind of its cause. -/
def LifecycleError.kind : LifecycleError → String
  | .init e => "Init." ++ e.kind
  | .config e => "Config." ++ e.kind
  | .spawn _ _ => "Spawn"
  | .alreadyStarted _ => "AlreadyStarted"
  | .notRunning => "NotRunning"
  | .write e => "Write." ++ e.kind

/-- The message of a lifecycle error. -/
def LifecycleError.message : LifecycleError → String
  | .init e => "initialization failed: " ++ e.message
  | .config e => "initialization failed: invalid config: " ++ e.message
  | .spawn name e => "initialization failed: could not spawn " ++ name ++ ": " ++ e.text
  | .alreadyStarted p => "pipeline already " ++ p.name
  | .notRunning => "pipeline is not running"
  | .write e => "WAL write failed: " ++ e.message

/-- What a running coordinator holds: its log, and its pool of threads with the queue. -/
structure Active (n : Nat) where
  log : DurableLog
  pool : Pool n

/-- A coordinator whose pools have `n` workers, as its configuration says: its configuration,
its metrics, while running its log and pool, and the pools that stops left behind. -/
structure Coordinator (n : Nat) where
  config : PipelineConfig
  recorder : Recorder
  active : Option (Active n) := none
  detached : List (Pool n) := []
  sized : config.workerThreads = n

/-- The machine and the state of a sink. -/
abbrev World (σ : Type) := StateM (Machine × σ)

/-- A computation of a coordinator in a world. -/
abbrev OnCoordinator (n : Nat) (σ : Type) := StateT (Coordinator n) (World σ)

/-- Runs a computation on the machine alone. -/
def World.onMachine {σ α : Type} (x : StateM Machine α) : World σ α :=
  modifyGet fun (m, s) =>
    let (a, m') := x.run m
    (a, (m', s))

/-- Runs a log computation on a machine: its outcome and the log as it is left. -/
def DurableLog.runLog {α : Type} (x : LogIo α) (log : DurableLog) :
    StateM Machine (Except WalError α × DurableLog) :=
  modifyGet fun m =>
    let (r, (m', log')) := x.run.run (m, log)
    ((r, log'), m')

/-- A pool reporting to the metrics `recorder`. -/
def Pool.lend {n : Nat} (P : Pool n) (recorder : Recorder) : Pool n :=
  { P with processor := { P.processor with recorder := recorder } }

/-- The names of a pool's threads in the order they start: the workers, then the flusher. -/
def threadNames (workers : Nat) : List String :=
  (List.range workers).map (fun i => "ecl-worker-" ++ toString i) ++ ["ecl-flusher"]

/-- Starts threads one after another; the first that fails ends the starts, with its name. -/
def spawnAll : List String → StateM Machine (Except (String × IoFault) Unit)
  | [] => return .ok ()
  | name :: rest => do
    match ← Io.spawn.run with
    | .error e => return .error (name, e)
    | .ok () => spawnAll rest

namespace Coordinator

variable {n : Nat} {σ : Type} (save : List ChangeRecord → World σ SaveOutcome)

/-- A stopped coordinator. -/
def new (config : PipelineConfig) (recorder : Recorder) : Coordinator config.workerThreads :=
  { config := config, recorder := recorder, sized := rfl }

/-- The phase: running while the log and the pool are held and no stop has begun, stopping while
one is under way. -/
def phase (c : Coordinator n) : Phase :=
  match c.active with
  | none => .stopped
  | some a => if a.pool.caller.stopping then .stopping else .running

/-- The number of queued records; zero when stopped. -/
def queueSize (c : Coordinator n) : Nat := (c.active.map (·.pool.processor.queue.size)).getD 0

/-- The log's checkpoint; none when stopped. -/
def checkpoint (c : Coordinator n) : Option Checkpoint := c.active.map (·.log.checkpoint)

/-- Every pool started, by number: the detached ones, then the running one. -/
def pools (c : Coordinator n) : List (Pool n) := c.detached ++ (c.active.map (·.pool)).toList

/-- The coordinator with pool `g` replaced. -/
def setPool (c : Coordinator n) (g : Nat) (P : Pool n) : Coordinator n :=
  if g < c.detached.length then { c with detached := c.detached.set g P }
  else if g = c.detached.length then { c with active := c.active.map ({ · with pool := P }) }
  else c

/-- Reports to the metrics. -/
def report (r : Report) : OnCoordinator n σ Unit :=
  modify fun c => { c with recorder := c.recorder.apply r }

/-- A step of thread `t` of pool `g`, reporting to the coordinator's metrics. -/
def threadStep (g : Nat) (t : Pool.Thread n) : OnCoordinator n σ Unit := do
  let c ← get
  match c.pools[g]? with
  | none => pure ()
  | some P =>
    let P' ← StateT.lift ((P.lend c.recorder).step save t)
    set { c.setPool g P' with recorder := P'.processor.recorder }

/-- Runs a log computation on the running log, keeping the log as it is left. -/
def onLog {α : Type} (x : LogIo α) : OnCoordinator n σ (Except WalError α) := do
  match (← get).active with
  | none => return .error .closed
  | some a =>
    let (r, log) ← StateT.lift (World.onMachine (σ := σ) (DurableLog.runLog x a.log))
    modify fun c => { c with active := c.active.map ({ · with log := log }) }
    return r

/-- Closes a log that the coordinator lets go of. -/
def closeLog (log : DurableLog) : OnCoordinator n σ Unit := do
  let _ ← StateT.lift (World.onMachine (σ := σ) (DurableLog.runLog DurableLog.close log))

/-- Starts a stopped coordinator: checks the configuration, opens the log, makes the queue and
starts the threads. -/
def start : OnCoordinator n σ (Except LifecycleError Unit) := do
  let c ← get
  if c.active.isSome then return .error (.alreadyStarted c.phase)
  match c.config.validate with
  | .error e => return .error (.config e)
  | .ok () =>
    match ← StateT.lift (World.onMachine (σ := σ)
        (DurableLog.openLog c.config.walPath c.config.backup).run) with
    | .error e => return .error (.init e)
    | .ok log =>
      let spawned ← StateT.lift (World.onMachine (σ := σ)
        (spawnAll (threadNames c.config.workerThreads)))
      match spawned with
      | .error (name, e) =>
        closeLog log
        return .error (.spawn name e)
      | .ok () =>
        let p : Processor := ⟨BoundedQueue.empty c.config.queueCapacity, c.recorder,
          c.config.batchSize⟩
        set { c with active := some ⟨log, Pool.spawn p c.config.shutdown.finalFlushRounds⟩ }
        return .ok ()

/-- The first step of logging a record: either the answer, or the record written to the log and
to be offered next to the queue of pool `g`. -/
inductive Writing where
  | answered (result : Except LifecycleError Logged)
  | written (g : Nat)

/-- Logs a record up to its offer: the capture filter, then the running log. -/
def write (r : ChangeRecord) : OnCoordinator n σ Writing := do
  let c ← get
  if !c.config.capture.captures r.entity.name then return .answered (.ok .skipped)
  if c.active.isNone then return .answered (.error .notRunning)
  match ← onLog (DurableLog.write r) with
  | .error .closed => return .answered (.error .notRunning)
  | .error e => return .answered (.error (.write e))
  | .ok _ => return .written c.detached.length

/-- The second step of logging a record: the offer to the queue of pool `g`, and its answer. -/
def offer (r : ChangeRecord) (g : Nat) : OnCoordinator n σ Logged := do
  let accepted := ((← get).pools[g]?.map fun P => (P.processor.queue.offer r).2).getD false
  threadStep save g (.producer r)
  return if accepted then .queued else .dropped

/-- Logs a record, both steps at once. -/
def logChange (r : ChangeRecord) : OnCoordinator n σ (Except LifecycleError Logged) := do
  match ← write r with
  | .answered result => return result
  | .written g => return .ok (← offer save r g)

/-- The first step of a stop: a running coordinator starts stopping, its caller closing the
queue; otherwise the stop reports nothing at once. -/
def beginStop : OnCoordinator n σ (Option ShutdownReport) := do
  let c ← get
  match c.active with
  | some a =>
    if a.pool.caller.stopping then return some {}
    threadStep save c.detached.length .caller
    return none
  | none => return some {}

/-- A later step of a stop: the next stage of the pool's stop, or, once that is over, closing the
log and leaving the pool to its threads; then the report. -/
def stopStep : OnCoordinator n σ (Option ShutdownReport) := do
  let c ← get
  match c.active with
  | none => return some {}
  | some a =>
    match a.pool.caller with
    | .finished done _ =>
      set { c with active := none, detached := c.detached ++ [a.pool] }
      closeLog a.log
      report (.queueSize 0)
      report .shutdown
      return some done
    | _ =>
      threadStep save c.detached.length .caller
      return none

/-- Drops a coordinator without stopping it: its log closes, and its pool, signalled but with the
queue still open, is left to its threads. -/
def drop : OnCoordinator n σ Unit := do
  let c ← get
  match c.active with
  | none => pure ()
  | some a =>
    set { c with active := none, detached := c.detached ++ [{ a.pool with signalled := true }] }
    closeLog a.log

end Coordinator

end EntityLog.Pipeline
