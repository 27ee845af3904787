import EntityLog.Daemon.Cli
import EntityLog.Daemon.Ingest
import EntityLog.Pipeline.JsonLines
/-!
# A run of the daemon

The daemon reads its arguments, then its settings (the configuration file, if one is named,
with the arguments over it). A refused argument list ends the run with the command line's own
text: help and version on standard output with code 0, anything else on standard error with
code 2. Refused settings end it with code 1 and `ecld: ` and the reason on standard error.

Then it appends a start marker to its log file (creating the log's directory), opens the sink of
JSON lines and starts a coordinator over it; a failure of either is also appended to the log and
ends the run with code 1. Once started it prints `READY`, logs the request on each line of its
input with the coordinator, stops the coordinator at the end of the input and prints a summary:
the ingestion totals, the records the sink took, its failures and the records left over. A line
ends at a line feed, which is dropped with a carriage return before it, and the last line may
lack one; input that is not UTF-8 ends the reading at the line that holds it.

The main thread is caller 0 of the coordinator's process, and the pool's threads work beside it:
a scheduler picks, turn by turn, the main thread or a worker or flusher. The daemon as it runs
here lets the threads come to rest before each turn of the main thread.
-/

namespace EntityLog.Daemon

open EntityLog.Files EntityLog.Record EntityLog.Pipeline EntityLog.Config

/-- How a run ended: its exit code and what it printed. -/
structure Exit where
  code : Nat
  stdout : String := ""
  stderr : String := ""
  deriving Repr, BEq

/-- The first part of the start marker; the process id and ` ---` follow. -/
def startMarker : String := "--- ecld: starting (pid: "

/-- Appends a line to a file, creating it when missing. -/
def appendLine (path : Path) (line : String) : Io Unit := do
  let inode ← Io.create path false
  Io.append inode (line ++ "\n").toUTF8

/-- Appends the start marker to the log, creating the log's directory first. -/
def writeStartMarker (log : Path) : Io Unit := do
  match Path.parent log with
  | some above => if !above.isEmpty then Io.createDirAll above
  | none => pure ()
  appendLine log (startMarker ++ toString (← get).pid ++ ") ---")

/-- Appends a start failure to the log; a failure to write it is ignored. -/
def writeStartFailure (log : Path) (reason : String) : StateM Machine Unit := do
  let _ ← (appendLine log ("ERROR failed to start ecld: " ++ reason)).run

/-- The lines of the input: split at line feeds, a carriage return right before a line feed
dropped, an empty end left out; reading stops before the first line that is not UTF-8. -/
def inputLines (input : ByteArray) : List String :=
  let bytes := input.toList
  let pieces := bytes.splitOn 10
  let ended := pieces.dropLast.map fun piece =>
    if piece.getLast? == some 13 then piece.dropLast else piece
  let last := pieces.getLast?.getD []
  let pieces := if last.isEmpty then ended else ended ++ [last]
  let rec decode : List (List UInt8) → List String
    | [] => []
    | piece :: rest =>
      match String.fromUTF8? (ByteArray.mk piece.toArray) with
      | some line => line :: decode rest
      | none => []
  decode pieces

/-- Saves a batch to the sink of JSON lines; a failure is a refusal with its message. -/
def saveLines (batch : List ChangeRecord) : World LineFile SaveOutcome :=
  modifyGet fun (m, f) =>
    let (r, m) := (f.save batch).run.run m
    let outcome := match r with
      | .ok () => SaveOutcome.saved
      | .error e => .refused e.message
    (outcome, (m, f))

/-- Where the main thread of a session is. -/
inductive Stage where
  | starting
  /-- About to read the next line, or to stop at the end of the input. -/
  | reading
  /-- Waiting for the answer of logging a record. -/
  | logging
  | stopping
  | failed (e : LifecycleError)
  | done (report : ShutdownReport)

/-- Whether the main thread is done, with a report or a failed start. -/
def Stage.over : Stage → Bool
  | .failed _ | .done _ => true
  | _ => false

/-- A session: the process around the coordinator, the lines not read yet, the totals so far and
where the main thread is. -/
structure Session (n : Nat) where
  process : Process n
  lines : List String
  stats : IngestStats
  stage : Stage

/-- Who takes a turn: the main thread, or a worker or the flusher of a pool. -/
inductive Turn where
  | main
  | worker (g i : Nat)
  | flusher (g : Nat)

/-- A computation of a session in a world. -/
abbrev OnSession (n : Nat) (σ : Type) := StateT (Session n) (World σ)

namespace Session

variable {n : Nat} {σ : Type} (save : List ChangeRecord → World σ SaveOutcome)

/-- The answer the main thread got, if its call ended. -/
def answerOf : List (Note n) → Option Answer
  | [] => none
  | .answered 0 a :: _ => some a
  | _ :: rest => answerOf rest

/-- Takes an event of the process; the answer the main thread got, if its call ended. -/
def onProcess (e : Event) : OnSession n σ (Option Answer) := do
  let s ← get
  let (notes, P) ← StateT.lift ((Process.step save e).run s.process)
  set { s with process := P }
  return answerOf notes

/-- Moves the main thread on, to `stage` and with `stats`. -/
def moveOn (stage : Stage) (stats : IngestStats) : OnSession n σ Unit :=
  modify fun s => { s with stage := stage, stats := stats }

/-- A turn of the main thread. -/
def mainTurn : OnSession n σ Unit := do
  let s ← get
  match s.stage with
  | .starting =>
    match ← onProcess save (.call 0 .start) with
    | some (.started (.ok ())) => moveOn .reading s.stats
    | some (.started (.error e)) => moveOn (.failed e) s.stats
    | _ => pure ()
  | .reading =>
    match s.lines with
    | [] =>
      match ← onProcess save (.call 0 .stop) with
      | some (.stopped report) => moveOn (.done report) s.stats
      | _ => moveOn .stopping s.stats
    | line :: rest =>
      let (stats, record) ← StateT.lift (World.onMachine (σ := σ) (readLine line s.stats))
      modify fun s => { s with lines := rest }
      match record with
      | none => moveOn .reading stats
      | some r =>
        match ← onProcess save (.call 0 (.log r)) with
        | some (.logged _ result) => moveOn .reading (stats.count result)
        | _ => moveOn .logging stats
  | .logging =>
    match ← onProcess save (.resume 0) with
    | some (.logged _ result) => moveOn .reading (s.stats.count result)
    | _ => pure ()
  | .stopping =>
    match ← onProcess save (.resume 0) with
    | some (.stopped report) => moveOn (.done report) s.stats
    | _ => pure ()
  | .failed _ | .done _ => pure ()

/-- Takes a turn. -/
def turn : Turn → OnSession n σ Unit
  | .main => mainTurn save
  | .worker g i => do let _ ← onProcess save (.worker g i)
  | .flusher g => do let _ ← onProcess save (.flusher g)

/-- Takes the turns a scheduler picks, given the turns left and the session, until the main
thread is done or `fuel` turns have been taken. -/
def runTurns (next : Nat → Session n → Turn) : (fuel : Nat) → OnSession n σ Unit
  | 0 => pure ()
  | fuel + 1 => do
    let s ← get
    if s.stage.over then pure ()
    else
      turn save (next fuel s)
      runTurns next fuel

/-- The daemon's own scheduler: the threads come to rest before each turn of the main thread. -/
def restFirst (_ : Nat) (s : Session n) : Turn :=
  match Process.choreFrom 0 s.process.coordinator.pools with
  | some (.worker g i) => .worker g i
  | some (.flusher g) => .flusher g
  | _ => .main

end Session

/-- The summary line of a run. -/
def summary (s : IngestStats) (m : Metrics) (residue : Nat) : String :=
  "ingested " ++ toString s.lines ++ " lines: " ++ toString s.queued ++ " queued, " ++
    toString s.dropped ++ " dropped, " ++ toString s.skipped ++ " skipped, " ++
    toString s.rejected ++ " rejected, " ++ toString s.failed ++ " failed; persisted " ++
    toString m.processed ++ ", save errors " ++ toString m.saveErrors ++ ", residue " ++
    toString residue

/-- A session on a new coordinator over the opened sink, with the given scheduler and at most
`fuel` turns: none when the main thread did not get done within them. -/
def serveWith (settings : Settings) (input : ByteArray)
    (next : Nat → Session settings.pipeline.workerThreads → Turn) (fuel : Nat) :
    StateM Machine (Option Exit) := do
  let fail (reason : String) : StateM Machine (Option Exit) := do
    writeStartFailure settings.log reason
    return some { code := 1, stderr := "ecld: " ++ reason ++ "\n" }
  match ← (LineFile.openAt settings.output).run with
  | .error e => fail e.message
  | .ok sink =>
    let start : Session settings.pipeline.workerThreads :=
      ⟨Process.new (Coordinator.new settings.pipeline (.live {})), inputLines input, {}, .starting⟩
    let m ← get
    let (((), s), (m, _)) := ((Session.runTurns saveLines next fuel).run start).run (m, sink)
    set m
    match s.stage with
    | .failed e => fail e.message
    | .done report =>
      let metrics := s.process.coordinator.recorder.snapshot.getD {}
      return some { code := 0,
                    stdout := "READY\n" ++ summary s.stats metrics report.residue ++ "\n" }
    | _ => return none

/-- Turns enough for the daemon's own scheduler to get through an input of this many lines. -/
def turnsFor (settings : Settings) (lines : Nat) : Nat :=
  8 * (lines + settings.pipeline.workerThreads + settings.pipeline.shutdown.finalFlushRounds + 8)

/-- The run after its settings are known, with the daemon's own scheduler. -/
def serve (settings : Settings) (input : ByteArray) : StateM Machine Exit := do
  let done ← serveWith settings input Session.restFirst
    (turnsFor settings (inputLines input).length)
  return done.getD { code := 1, stderr := "ecld: the session did not finish\n" }

/-- Runs the daemon with its arguments and standard input. -/
def run (arguments : List String) (input : ByteArray) : StateM Machine Exit := do
  match Args.parse arguments with
  | .error f =>
    match f with
    | .help | .version => return { code := 0, stdout := f.message }
    | _ => return { code := 2, stderr := f.message }
  | .ok args =>
    let configText ← match args.config with
      | some p => do
        let r ← (Io.look (·.readText p)).run
        pure (r.mapError (·.text))
      | none => pure (.error "")
    match args.resolve (fun _ => configText) with
    | .error e => return { code := 1, stderr := "ecld: " ++ e.message ++ "\n" }
    | .ok settings =>
      match ← (writeStartMarker settings.log).run with
      | .error e => return { code := 1, stderr := "ecld: " ++ e.text ++ "\n" }
      | .ok () =>
        match Path.fileName settings.log with
        | none =>
          return { code := 1,
                   stderr := "ecld: log path " ++ settings.log ++ " has no file name\n" }
        | some _ => serve settings input

end EntityLog.Daemon
