import EntityLog.Script.Files
import EntityLog.Script.Records
import EntityLog.Log.Durable
import EntityLog.Pipeline.JsonLines
/-!
# Scripts of the durable log and of the sink of JSON lines

A log script opens durable logs on one machine under numbered handles, writes records through
them, closes or drops them, replays the live file, and changes files between steps, also taking
the lock file from outside. Opening a handle that is already open replaces its log, closing the
old one after the new one opened.

A sink script opens a file of JSON lines (which may exist beforehand) and saves batches to it;
each save answers with its result and the whole file.
-/

namespace EntityLog.Script

open EntityLog.Json EntityLog.Files EntityLog.Record

/-! ## Durable log -/

/-- Durable logs open on one machine under numbered handles, and the lock taken from outside (its
file and holder), if any. -/
structure Bay where
  machine : Files.Machine
  slots : List (Nat × Log.DurableLog)
  outside : Option (Nat × Nat)

/-- The log open under a handle. -/
def Bay.slot? (b : Bay) (h : Nat) : Option Log.DurableLog := (b.slots.find? (·.1 == h)).map (·.2)

/-- Puts a log under a handle. -/
def Bay.put (b : Bay) (h : Nat) (l : Log.DurableLog) : Bay :=
  { b with slots := (b.slots.filter (·.1 != h)) ++ [(h, l)] }

/-- Forgets the log under a handle. -/
def Bay.clear (b : Bay) (h : Nat) : Bay := { b with slots := b.slots.filter (·.1 != h) }

/-- Runs a log computation on the machine. -/
def onMachine {α : Type} (b : Bay) (x : Log.Wal α) : Bay × Except Log.WalError α :=
  let (r, m) := x.run.run b.machine
  ({ b with machine := m }, r)

/-- Runs a computation on the log under a handle, keeping the log as it is left. -/
def onLog {α : Type} (b : Bay) (h : Nat) (l : Log.DurableLog) (x : Log.LogIo α) :
    Bay × Except Log.WalError α :=
  let (r, m) := (Log.LogIo.runOn x l).run.run b.machine
  match r with
  | .ok (r', l') => ({ b with machine := m }.put h l', r')
  | .error e => ({ b with machine := m }, .error e)

/-- The answer of a log computation. -/
def resultV {α : Type} (r : Except Log.WalError α) (f : α → Value) : Value :=
  match r with
  | .ok a => okV (f a)
  | .error e => walErr e

/-- The backup policy a step names; mirroring when none. -/
def policyOf (o : Value) : Config.BackupPolicy :=
  match o.get? "policy" with
  | some (.string "full_copy") => .fullCopy
  | _ => .mirror

/-- The state of a log: its position, recoveries, and whether it is closed or damaged. -/
def stateV (l : Log.DurableLog) (corrupted : Bool) : Value :=
  obj [("position", nat l.checkpoint.position), ("recoveries", nat l.recoveries),
    ("is_closed", boolV l.isClosed), ("is_corrupted", boolV corrupted)]

/-- Writes records in order through a handle, stopping at the first failure; answers the last
position. -/
def writeMany (b : Bay) (h : Nat) : List ChangeRecord → Option Nat → Bay × Value
  | [], some n => (b, okV (nat n))
  | [], none => (b, okV .null)
  | r :: rest, _ =>
    match b.slot? h with
    | none => (b, errObj "BadInput" "handle not open")
    | some l =>
      let (b, res) := onLog b h l (Log.DurableLog.write r)
      match res with
      | .ok c => writeMany b h rest (some c.position)
      | .error e => (b, walErr e)

/-- One log step. -/
def bayStep (live : String) (b : Bay) (o : Value) : Outcome (Bay × Value) := do
  let h := o.natD "h" 0
  let paths := Log.LogPaths.forLog live
  match ← fileStep paths b.machine o with
  | some (m, v) => return ({ b with machine := m }, v)
  | none =>
  let withLog (f : Log.DurableLog → Outcome (Bay × Value)) :
      Outcome (Bay × Value) :=
    match b.slot? h with
    | some l => f l
    | none => .ok (b, errObj "BadInput" "handle not open")
  match stepName o with
  | "open" =>
    let (b', r) := onMachine b (Log.DurableLog.openLog live (policyOf o))
    match r with
    | .ok l =>
      let b' := match b'.slot? h with
        | some old => (onLog b' h old Log.DurableLog.close).1
        | none => b'
      return (b'.put h l, okV (obj [("position", nat l.checkpoint.position),
        ("recoveries", nat l.recoveries)]))
    | .error e => return (b', walErr e)
  | "write" =>
    withLog fun l =>
      match specRecord ((o.get? "record").getD .null) with
      | .error r => .ok (b, r.toValue)
      | .ok r =>
        let (b, res) := onLog b h l (Log.DurableLog.write r)
        .ok (b, resultV res fun c => nat c.position)
  | "write_many" =>
    withLog fun _ => do
      let rs ← shorthandRange (← o.nat? "from") (← o.nat? "to")
      return writeMany b h rs none
  | "close" =>
    withLog fun l =>
      let (b, _) := onLog b h l Log.DurableLog.close
      .ok (b, okV .null)
  | "drop" =>
    withLog fun l =>
      let (b, _) := onLog b h l Log.DurableLog.close
      .ok (b.clear h, okV .null)
  | "state" =>
    withLog fun l =>
      let (b, res) := onLog b h l Log.DurableLog.isCorrupted
      let l := (b.slot? h).getD l
      .ok (b, resultV res fun c => stateV l c)
  | "replay" =>
    let (b, res) := onMachine b (Log.DurableLog.replay live)
    return (b, resultV res fun rs => arr (rs.map fun r => str r.id.render))
  | "replay_full" =>
    let (b, res) := onMachine b (Log.DurableLog.replay live)
    return (b, resultV res fun rs => arr (rs.map fun r => str r.encode))
  | "external_lock" =>
    let take : Files.Io (Nat × Nat) := do
      let i ← Files.Io.create paths.lock false
      let t ← Files.Io.token
      Files.Io.tryLock i t
      return (i, t)
    let (r, m) := take.run.run b.machine
    match r with
    | .ok it => return ({ b with machine := m, outside := some it }, okV .null)
    | .error e => return ({ b with machine := m }, ioErrV e)
  | "external_unlock" =>
    match b.outside with
    | some (_, t) =>
      let m := { b.machine with disk := b.machine.disk.unlock t }
      return ({ b with machine := m, outside := none }, okV .null)
    | none => return (b, okV .null)
  | _ => unknownStep o

/-- Runs a log script on the log at a path in the working directory. -/
def walScript (v : Value) : Outcome Value := do
  let path := match v.get? "path" with
    | some (.string p) => p
    | _ => "changes.log"
  let live := workDir ++ "/" ++ path
  let bay : Bay := ⟨baseMachine, [], none⟩
  return arr (← runSteps (bayStep live) bay (← v.arr? "ops"))

/-! ## Sink of JSON lines -/

/-- The error object of a sink failure. -/
def sinkErrV (e : Pipeline.SinkFault) : Value := errObj e.kind e.message

/-- Runs a machine computation. -/
def onMachineDo {ε α : Type} (m : Files.Machine) (x : Files.OnMachine ε α) :
    Files.Machine × Except ε α :=
  let (r, m) := x.run.run m
  (m, r)

/-- The whole text of the sink's file. -/
def contentV (d : Files.Disk) (f : Pipeline.LineFile) : Value :=
  str (String.fromUTF8? (d.bytesOf f.inode) |>.getD "")

/-- Runs a sink script: opens the file, then saves each batch. -/
def jsonlScript (v : Value) : Outcome Value := do
  let rel := match v.get? "path" with
    | some (.string p) => p
    | _ => "out.jsonl"
  let path := Files.Path.join workDir rel
  let batches ← (← v.arr? "batches").mapM fun b => match b with
    | .array rs => rs.mapM specRecord
    | _ => bad "batch must be a list"
  let start ← match v.get? "existing" with
    | some (.string text) =>
      match baseMachine.disk.writeFile path text.toUTF8 with
      | .ok d => pure { baseMachine with disk := d }
      | .error e => throw ⟨"DriverIo", e.text⟩
    | _ => pure baseMachine
  let (m, opened) := onMachineDo start (Pipeline.LineFile.openAt path)
  match opened with
  | .error e => throw ⟨e.kind, e.message⟩
  | .ok f =>
    let (_, steps) := batches.foldl (fun (m, acc) batch =>
      let (m, r) := onMachineDo m (f.save batch)
      let result := match r with
        | .ok () => str "ok"
        | .error e => sinkErrV e
      (m, acc ++ [obj [("result", result), ("content", contentV m.disk f)]])) (m, [])
    return obj [("path_matches", boolV (f.path == path)), ("steps", arr steps)]

end EntityLog.Script
