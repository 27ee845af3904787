import EntityLog.Files.Disk
import EntityLog.Time.Instant
/-!
# The machine a program runs on

A machine is a disk together with the state of the running process that the programs here
depend on: the set of lock files the process holds, its id, and a clock. Every file-system call
is numbered; a fault plan may make any numbered call fail with a given error before it has any
effect, which lets a run be replayed with failures injected anywhere. The clock is read by call
number too, and random numbers come from a fixed sequence, so a run is a pure function of its
machine.

Programs run in `Io`: their calls change the machine even when a later call fails.
-/

namespace EntityLog.Files

open EntityLog.Time

/-- A disk and the process running on it. -/
structure Machine where
  disk : Disk
  /-- Canonical paths of the lock files this process holds. -/
  held : List (List String) := []
  pid : Nat := 4242
  /-- File-system calls made so far. -/
  calls : Nat := 0
  /-- The calls that fail, by number. -/
  faults : Nat → Option IoFault := fun _ => none
  /-- The time at each call number. -/
  clock : Nat → Instant := fun n => Instant.ofMillis (1767225600000 + n)
  /-- The name of the host. -/
  hostname : String := "localhost"
  /-- The name of the thread making the calls, if it has one. -/
  thread : Option String := some "main"
  /-- Random numbers drawn so far. -/
  draws : Nat := 0
  /-- The random number of each draw. -/
  random : Nat → Nat := fun n => n
  /-- Threads started so far. -/
  spawned : Nat := 0
  /-- The thread starts that fail, by number. -/
  spawnFaults : Nat → Option IoFault := fun _ => none

/-- A computation on a machine that may fail with an error of type `ε`; the machine keeps the
effects made before a failure. -/
abbrev OnMachine (ε : Type) := ExceptT ε (StateM Machine)

/-- A computation on a machine that may fail with a system error. -/
abbrev Io := OnMachine IoFault

namespace Io

/-- Makes a numbered file-system call: it fails when the fault plan says so, and otherwise
changes the disk as `f` says. -/
def call {α : Type} (f : Disk → Except IoFault (Disk × α)) : Io α := do
  let m ← get
  set { m with calls := m.calls + 1 }
  match m.faults m.calls with
  | some e => throw e
  | none =>
    match f m.disk with
    | .ok (d, a) => do modify fun m => { m with disk := d }; return a
    | .error e => throw e

/-- A call that only looks. -/
def look {α : Type} (f : Disk → Except IoFault α) : Io α :=
  call fun d => do return (d, ← f d)

/-- A call that only changes. -/
def change (f : Disk → Except IoFault Disk) : Io Unit :=
  call fun d => do return (← f d, ())

/-- The time now. -/
def now : Io Instant := do
  let m ← get
  return m.clock m.calls

/-- Draws a random number. -/
def draw : Io Nat := do
  let m ← get
  set { m with draws := m.draws + 1 }
  return m.random m.draws

/-- Starts a thread. Starts are numbered apart from file-system calls; the plan of failed starts
may make any of them fail. -/
def spawn : Io Unit := do
  let m ← get
  set { m with spawned := m.spawned + 1 }
  match m.spawnFaults m.spawned with
  | some e => throw e
  | none => pure ()

/-- What a path names. -/
def stat (p : Path) : Io Node := look (·.stat p)

/-- The size of what a path names, `none` when missing. -/
def size? (p : Path) : Io (Option Nat) := look (·.sizeIfPresent p)

/-- Whether a path names something; a failed look counts as no. -/
def exists? (p : Path) : Io Bool :=
  tryCatch (do let _ ← stat p; pure true) fun _ => pure false

/-- Reads a whole file. -/
def read (p : Path) : Io ByteArray := look (·.readBytes p)

/-- Opens for writing, creating (and emptying when `truncate`); gives the inode. -/
def create (p : Path) (truncate : Bool) : Io Nat := call (·.create p truncate)

/-- Opens an existing file for writing; gives the inode. -/
def openWrite (p : Path) : Io Nat := look (·.openForWrite p)

/-- Opens an existing file for reading: the inode, `none` for a directory. -/
def openRead (p : Path) : Io (Option Nat) := look (·.openForRead p)

/-- Writes bytes at the end of an open file. -/
def append (inode : Nat) (bytes : ByteArray) : Io Unit :=
  change fun d => .ok (d.appendBytes inode bytes)

/-- Replaces the bytes of an open file from its start. -/
def overwrite (inode : Nat) (bytes : ByteArray) : Io Unit :=
  change fun d => .ok (d.setBytes inode bytes)

/-- Flushes an open file to stable storage. -/
def sync (_inode : Nat) : Io Unit := change .ok

/-- Sets the length of an open file. -/
def setLength (inode : Nat) (n : Nat) : Io Unit := change fun d => .ok (d.setLength inode n)

/-- Copies a file over another; gives the length. -/
def copy (src dst : Path) : Io Nat := call (·.copy src dst)

/-- Renames. -/
def rename (src dst : Path) : Io Unit := change (·.rename src dst)

/-- Creates a directory and those above it. -/
def createDirAll (p : Path) : Io Unit := change (·.createDirAll p)

/-- The canonical segments of an existing path. -/
def canonical (p : Path) : Io (List String) := look (·.canonical p)

/-- Takes an advisory lock on an open file for a holder token. -/
def tryLock (inode token : Nat) : Io Unit := change (·.tryLock inode token)

/-- Releases a holder's advisory lock. -/
def unlock (token : Nat) : Io Unit := change fun d => .ok (d.unlock token)

/-- A fresh holder token. -/
def token : Io Nat := do
  let m ← get
  let (d, t) := m.disk.newToken
  set { m with disk := d }
  return t

/-- Reads the bytes of an open file. -/
def contents (inode : Nat) : Io ByteArray := look fun d => .ok (d.bytesOf inode)

end Io

/-- Runs a system computation inside one with a wider error type. -/
def OnMachine.io {ε α : Type} (wrap : IoFault → ε) (x : Io α) : OnMachine ε α :=
  ExceptT.mk do
    match ← x.run with
    | .ok a => return .ok a
    | .error e => return .error (wrap e)

end EntityLog.Files
