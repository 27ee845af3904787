import EntityLog.Pipeline.Coordinator
/-!
# A process around a coordinator

Callers make calls on a coordinator while the threads of its pools work beside them. A call is
one step, except logging, whose write to the log and offer to the queue are two, and stopping,
which takes a step per stage. A schedule is any list of events: a caller beginning a call, a
caller taking the next step of its call, or a step of a pool's worker or flusher; a caller busy
with a call lets a new one pass. A run notes the answer of every call that ends, every record the
log took for a caller, each time a flusher wakes to flush, and the threads still in their loops
when a stop stops waiting for them.
-/

namespace EntityLog.Pipeline

open EntityLog.Record EntityLog.Log

/-- A call on a coordinator. -/
inductive Call where
  | start
  | stop
  | log (r : ChangeRecord)
  | queueSize
  | checkpoint

/-- What a call answered; logging answers with its record. -/
inductive Answer where
  | started (result : Except LifecycleError Unit)
  | stopped (report : ShutdownReport)
  | logged (r : ChangeRecord) (result : Except LifecycleError Logged)
  | queueSize (size : Nat)
  | checkpoint (ck : Option Checkpoint)

/-- Where a caller is: between calls, logging a record that the log took and that goes to the
queue of pool `g` next, or stopping. -/
inductive Pending where
  | idle
  | offering (r : ChangeRecord) (g : Nat)
  | stopping

/-- An event of a schedule: caller `k` begins a call or takes its call's next step, or a worker
or the flusher of pool `g` takes a step. -/
inductive Event where
  | call (k : Nat) (c : Call)
  | resume (k : Nat)
  | worker (g i : Nat)
  | flusher (g : Nat)

/-- What a run notes: a call's answer, a record the log took, a flusher waking to flush, and the
threads still in their loops when a stop stopped waiting for them. -/
inductive Note (n : Nat) where
  | answered (k : Nat) (a : Answer)
  | wrote (k : Nat) (r : ChangeRecord)
  | fired (g : Nat)
  | joined (g : Nat) (stragglers : List (Pool.Thread n))

/-- A coordinator and where each of its callers is. -/
structure Process (n : Nat) where
  coordinator : Coordinator n
  callers : Nat → Pending

/-- A computation of a process in a world. -/
abbrev OnProcess (n : Nat) (σ : Type) := StateT (Process n) (World σ)

namespace Process

variable {n : Nat} {σ : Type} (save : List ChangeRecord → World σ SaveOutcome)

/-- A coordinator whose callers are all between calls. -/
def new (c : Coordinator n) : Process n := ⟨c, fun _ => .idle⟩

/-- Runs a computation of the coordinator. -/
def coordinate {α : Type} (x : OnCoordinator n σ α) : OnProcess n σ α := do
  let P ← get
  let (a, c) ← StateT.lift (x.run P.coordinator)
  set { P with coordinator := c }
  return a

/-- Puts caller `k` at `p`. -/
def setCaller (k : Nat) (p : Pending) : OnProcess n σ Unit :=
  modify fun P => { P with callers := fun j => if j = k then p else P.callers j }

/-- Caller `k` begins a call. -/
def begin (k : Nat) : Call → OnProcess n σ (List (Note n))
  | .start => do return [.answered k (.started (← coordinate Coordinator.start))]
  | .stop => do
    match ← coordinate (Coordinator.beginStop save) with
    | some report => return [.answered k (.stopped report)]
    | none =>
      setCaller k .stopping
      return []
  | .log r => do
    match ← coordinate (Coordinator.write r) with
    | .answered result => return [.answered k (.logged r result)]
    | .written g =>
      setCaller k (.offering r g)
      return [.wrote k r]
  | .queueSize => do return [.answered k (.queueSize (← get).coordinator.queueSize)]
  | .checkpoint => do return [.answered k (.checkpoint (← get).coordinator.checkpoint)]

/-- The threads of the running pool still in their loops, noted as a stop stops waiting for
them. -/
def joinNote (c : Coordinator n) : List (Note n) :=
  match c.active with
  | some a =>
    match a.pool.caller with
    | .joining => [.joined c.detached.length a.pool.stragglers]
    | _ => []
  | none => []

/-- Caller `k` takes the next step of its call. -/
def resume (k : Nat) : OnProcess n σ (List (Note n)) := do
  match (← get).callers k with
  | .idle => return []
  | .offering r g =>
    let logged ← coordinate (Coordinator.offer save r g)
    setCaller k .idle
    return [.answered k (.logged r (.ok logged))]
  | .stopping =>
    let joined := joinNote (← get).coordinator
    match ← coordinate (Coordinator.stopStep save) with
    | some report =>
      setCaller k .idle
      return joined ++ [.answered k (.stopped report)]
    | none => return joined

/-- Whether the flusher of pool `g` wakes to flush at its next step. -/
def fires (c : Coordinator n) (g : Nat) : Bool :=
  match c.pools[g]? with
  | some P => P.flusher == .waiting && !P.signalled
  | none => false

/-- Takes an event. -/
def step : Event → OnProcess n σ (List (Note n))
  | .call k c => do
    match (← get).callers k with
    | .idle => begin save k c
    | _ => return []
  | .resume k => resume save k
  | .worker g i => do
    if h : i < n then coordinate (Coordinator.threadStep save g (.worker ⟨i, h⟩))
    return []
  | .flusher g => do
    let fired := fires (← get).coordinator g
    coordinate (Coordinator.threadStep save g .flusher)
    return if fired then [.fired g] else []

/-- Takes the events of a schedule in order, noting what they did. -/
def run : List Event → OnProcess n σ (List (Note n))
  | [] => return []
  | e :: rest => do
    let notes ← step save e
    return notes ++ (← run rest)

/-! ## Letting the threads rest -/

/-- The step that pool `g` takes next on its way to rest, if it has one: with the signal raised, a
step of its first thread still in its loop; otherwise a step of a worker or the flusher in the
middle of a drain, or of worker 0 when a full batch is queued. -/
def poolChore (P : Pool n) (g : Nat) : Option Event :=
  if P.signalled then
    match P.stragglers with
    | .worker i :: _ => some (.worker g i)
    | _ :: _ => some (.flusher g)
    | [] => none
  else
    match (List.finRange n).find? (fun i => P.workers i != .polling) with
    | some i => some (.worker g i)
    | none =>
      if P.flusher != .waiting then some (.flusher g)
      else if 0 < n ∧ P.processor.batchSize ≤ P.processor.queue.size then some (.worker g 0)
      else none

/-- The next step on the way to rest of the first of these pools, numbered from `g`, that has
one. -/
def choreFrom : Nat → List (Pool n) → Option Event
  | _, [] => none
  | g, P :: rest => (poolChore P g).orElse fun _ => choreFrom (g + 1) rest

/-- Enough steps for every pool of a coordinator to come to rest: each drain takes at most four
steps and takes a record, and each thread leaves its loop in a few more. -/
def restFuel (c : Coordinator n) : Nat :=
  4 * (c.pools.foldr (fun P acc => P.processor.queue.size + n + 3 + acc) 0 + 1)

/-- Lets the threads of every pool work until they rest, in at most `fuel` steps. -/
def settle : (fuel : Nat) → OnProcess n σ Unit
  | 0 => pure ()
  | fuel + 1 => do
    match choreFrom 0 (← get).coordinator.pools with
    | none => pure ()
    | some e =>
      let _ ← step save e
      settle fuel

end Process

end EntityLog.Pipeline
