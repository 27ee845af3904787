import EntityLog.Script.Basic
import EntityLog.Log.Paths
import EntityLog.Log.Error
import EntityLog.Files.Machine
import EntityLog.Json.Reader
/-!
# Files in scripts

Scripts run on a machine whose disk holds one working directory, named `$DIR`, so that answers
do not depend on where it would lie on a real disk. A file step names a file of a log (live,
checkpoint, backup, lock) or a path inside the working directory, and reads, changes or removes
it directly, outside any program. A listing shows every name under the working directory, with
the sizes of files whose size is fixed by their content; a moved-aside file is listed without
its time stamp.
-/

namespace EntityLog.Script

open EntityLog.Json EntityLog.Files

/-- The working directory of scripts. -/
def workDir : Path := "$DIR"

/-- A disk holding the empty working directory. -/
def workDisk : Disk :=
  match Disk.createDirAll {} workDir with
  | .ok d => d
  | .error _ => {}

/-- The error object of a log error. -/
def walErr (e : Log.WalError) : Value := errObj e.kind e.message

/-- The error object of a system error met by a file step itself. -/
def ioErrV (e : Files.IoFault) : Value := errObj "DriverIo" e.text

/-- The file a step names: a file of the log, or a path in the working directory. -/
def fileTarget (paths : Log.LogPaths) (o : Value) : Outcome String := do
  match ← o.str? "file" with
  | "live" => pure paths.live
  | "checkpoint" => pure paths.checkpoint
  | "backup" => pure paths.backup
  | "lock" => pure paths.lock
  | other => pure (workDir ++ "/" ++ other)

/-- Whether a character is a decimal digit. -/
def isDigitChar (c : Char) : Bool := c.isDigit

/-- A listed name, with the time stamp of a moved-aside file replaced by `*`. -/
def listedName (name : String) : String :=
  let parts := name.splitOn "/"
  let last := parts.getLast?.getD ""
  let renamed := match last.splitOn "-" with
    | "corrupted" :: stamp :: rest =>
      if stamp.length == 17 && stamp.all isDigitChar && !rest.isEmpty then
        "corrupted-*-" ++ "-".intercalate rest
      else last
    | _ => last
  "/".intercalate (parts.dropLast ++ [renamed])

/-- Whether a file's size is left out of listings: checkpoints, locks and temporary files hold times
or process ids. -/
def hiddenSize (name : String) : Bool :=
  name.endsWith ".checkpoint" || name.endsWith ".lock" || name.endsWith ".tmp"

/-- Inserts an entry into a list sorted by name. -/
def insertEntry (e : String × Value) : List (String × Value) → List (String × Value)
  | [] => [e]
  | x :: rest => if e.1 < x.1 then e :: x :: rest else x :: insertEntry e rest

/-- Every name under the working directory, sorted, directories marked by a final `/`. -/
def filesV (d : Files.Disk) : Value :=
  let entries := (d.listBelow workDir).map fun (name, node) =>
    match node with
    | .dir => (listedName name ++ "/", .null)
    | .file i => (listedName name,
        if hiddenSize name then .null else nat (d.bytesOf i).size)
  arr ((entries.foldl (fun acc e => insertEntry e acc) []).map fun (n, v) => arr [str n, v])

/-- A checkpoint object with its time stamp masked. -/
def maskTimestamp : Value → Value
  | .object ms =>
    .object (ms.map fun (k, v) => if k == "timestamp" then (k, str "<timestamp>") else (k, v))
  | v => v

/-- The text of a file: a checkpoint as its object with the time masked, a lock without its process
id. -/
def readV (path : String) (d : Files.Disk) : Value :=
  match d.readText path with
  | .error e => ioErrV e
  | .ok text =>
    if path.endsWith ".checkpoint" then
      match parseValue text.toUTF8 with
      | .ok v => obj [("ok", maskTimestamp v)]
      | .error _ => obj [("ok", str text)]
    else if path.endsWith ".lock" then
      obj [("ok", str (String.ofList (text.toList.filter fun c => !c.isDigit)))]
    else obj [("ok", str text)]

/-- Changes the disk, or answers the error. -/
def diskChange (f : Files.Disk → Except Files.IoFault Files.Disk) (m : Files.Machine) :
    Files.Machine × Value :=
  match f m.disk with
  | .ok d => ({ m with disk := d }, obj [("ok", .null)])
  | .error e => (m, ioErrV e)

/-- Removes a file, or a directory with all below it. -/
def removePath (p : String) (d : Files.Disk) : Except Files.IoFault Files.Disk :=
  match d.stat p with
  | .ok .dir => d.removeTree p
  | _ => d.removeFile p

/-- A file step, if the step is one. -/
def fileStep (paths : Log.LogPaths) (m : Files.Machine) (o : Value) :
    Outcome (Option (Files.Machine × Value)) := do
  match stepName o with
  | "truncate" =>
    let p ← fileTarget paths o
    let n ← o.nat? "len"
    return some (diskChange (·.truncateFile p n) m)
  | "append" =>
    let p ← fileTarget paths o
    let data ← o.str? "data"
    return some (diskChange (·.appendFile p data.toUTF8) m)
  | "write_file" =>
    let p ← fileTarget paths o
    let data ← o.str? "data"
    return some (diskChange (·.writeFile p data.toUTF8) m)
  | "remove" =>
    let p ← fileTarget paths o
    return some (diskChange (removePath p) m)
  | "mkdir" =>
    let p ← fileTarget paths o
    return some (diskChange (·.createDirAll p) m)
  | "read" =>
    let p ← fileTarget paths o
    return some (m, readV p m.disk)
  | "files" => return some (m, obj [("ok", filesV m.disk)])
  | _ => return none

/-- A machine holding the empty working directory. -/
def baseMachine : Files.Machine := { disk := workDisk }

end EntityLog.Script
