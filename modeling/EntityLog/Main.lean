import EntityLog.Daemon.Host
/-!
# The daemon's command line

Reads all of standard input, copies in the files the run may touch, runs the daemon, copies its
changes back, prints what it printed and exits with its code.
-/

open EntityLog EntityLog.Daemon

/-- The bytes of a file, if it can be read. -/
def readReal (p : String) : IO (Option ByteArray) := do
  try
    return some (← IO.FS.readBinFile p)
  catch _ =>
    return none

/-- Reads a stream to its end. -/
partial def readToEnd (s : IO.FS.Stream) (acc : ByteArray) : IO ByteArray := do
  let chunk ← s.read 65536
  if chunk.isEmpty then return acc else readToEnd s (acc ++ chunk)

/-- Applies one change to the real disk. -/
def applyChange : Change → IO Unit
  | .makeDir p => IO.FS.createDirAll p
  | .write p bytes => IO.FS.writeBinFile p bytes
  | .remove p => do
    try IO.FS.removeFile p catch _ => pure ()

def main (args : List String) : IO UInt32 := do
  let input ← readToEnd (← IO.getStdin) ByteArray.empty
  let cwd := (← IO.currentDir).toString
  let configText ← match (Args.parse args).toOption.bind (·.config) with
    | some p => pure ((← readReal p).bind String.fromUTF8?)
    | none => pure none
  let mut files : List (String × ByteArray) := []
  for p in touchedPaths args configText do
    if let some bytes ← readReal p then files := files ++ [(p, bytes)]
  let machine := hostMachine cwd files (← IO.monoNanosNow)
  let (exit, after) := (run args input).run machine
  for c in changes machine.disk after.disk do
    applyChange c
  let stdout ← IO.getStdout
  stdout.putStr exit.stdout
  stdout.flush
  let stderr ← IO.getStderr
  stderr.putStr exit.stderr
  stderr.flush
  return exit.code.toUInt32
