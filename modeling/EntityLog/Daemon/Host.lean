import EntityLog.Daemon.Run
/-!
# The daemon on a real disk

A run works on a disk held in memory. To run it against a real file system, the files a run may
touch are copied in first: the configuration file, the files of the durable log, the output
file and the daemon's log, each at its own path under the real working directory. After the
run, every directory and every file whose bytes are new is copied back, and a copied-in file
that the run removed or moved is removed.

Locks live only in memory, so a run held this way does not see a lock another process holds.
-/

namespace EntityLog.Daemon

open EntityLog.Files EntityLog.Log

/-- The files a run with these arguments may read or change, given the text of the configuration
file when it could be read. -/
def touchedPaths (arguments : List String) (configText : Option String) : List Path :=
  match Args.parse arguments with
  | .error _ => []
  | .ok a =>
    let config := a.config.toList
    let read : Path → Except String String := fun _ =>
      match configText with
      | some t => .ok t
      | none => .error ""
    match a.resolve read with
    | .error _ => config
    | .ok s =>
      let log := LogPaths.forLog s.pipeline.walPath
      config ++ [log.live, log.checkpoint, log.backup, log.lock, s.output, s.log]

/-- The segments of a working directory given as an absolute path. -/
def cwdSegments (cwd : Path) : List String := resolveSegments [] cwd

/-- Copies a file into a disk, creating the directories above it. -/
def mountFile (d : Disk) (p : Path) (bytes : ByteArray) : Disk :=
  let withParent := match Path.parent p with
    | some above => (d.createDirAll above).toOption.getD d
    | none => d
  (withParent.writeFile p bytes).toOption.getD withParent

/-- A machine for a run: the files copied in, the working directory, and random numbers drawn
from a seed. -/
def hostMachine (cwd : Path) (files : List (Path × ByteArray)) (seed : Nat) : Machine :=
  let base : Disk := { cwd := cwdSegments cwd }
  let base := (base.createDirAll cwd).toOption.getD base
  { disk := files.foldl (fun d (p, bytes) => mountFile d p bytes) base,
    random := fun n => (seed + n + 1) * 0x9E3779B97F4A7C15F39CC0605CEDC835 % Nat.pow 2 128 }

/-- A change to copy back. -/
inductive Change where
  | makeDir (path : Path)
  | write (path : Path) (bytes : ByteArray)
  | remove (path : Path)

/-- The absolute path of segments. -/
def absolutePath (segs : List String) : Path := "/" ++ "/".intercalate segs

/-- The changes from one disk to another: new directories, files with new bytes, and files
gone. -/
def changes (before after : Disk) : List Change :=
  let dirs := after.names.filterMap fun (segs, n) =>
    match n, before.nodeAt segs with
    | .dir, some .dir => none
    | .dir, _ => some (Change.makeDir (absolutePath segs))
    | .file _, _ => none
  let writes := after.names.filterMap fun (segs, n) =>
    match n with
    | .file i =>
      let bytes := after.bytesOf i
      let same := match before.nodeAt segs with
        | some (.file j) => (before.bytesOf j).toList == bytes.toList
        | _ => false
      if same then none else some (Change.write (absolutePath segs) bytes)
    | .dir => none
  let removals := before.names.filterMap fun (segs, n) =>
    match n, after.nodeAt segs with
    | .file _, some (.file _) => none
    | .file _, _ => some (Change.remove (absolutePath segs))
    | .dir, _ => none
  dirs ++ writes ++ removals

end EntityLog.Daemon
