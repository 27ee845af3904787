import EntityLog.Log.Store
/-!
# The lock of a log

A log is owned through its lock file. Within one process the owners are tracked by the
canonical path of the lock file, so a second owner in the same process is refused whatever
spelling of the path it uses; across processes the advisory lock on the file decides. The owner
writes its process id into the lock file for operators.
-/

namespace EntityLog.Log

open EntityLog.Files

/-- An owned lock: the canonical path, the open lock file, and the holder token of its advisory
lock. -/
structure LogLock where
  key : List String
  inode : Nat
  token : Nat
  deriving Repr, BEq

/-- Forgets a canonical path in the process's set of held locks. -/
def forgetHeld (key : List String) : Wal Unit :=
  modify fun m => { m with held := m.held.filter (· != key) }

/-- Takes the lock at `path`. -/
def LogLock.acquire (path : Path) : Wal LogLock := do
  let inode ← Wal.io (Io.create path false)
  let key ← Wal.io (Io.canonical path)
  let m ← get
  if m.held.contains key then throw (.lockHeldInProcess path)
  set { m with held := m.held ++ [key] }
  let token ← Wal.io Io.token
  tryCatch (Wal.io (Io.tryLock inode token)) fun _ => do
    forgetHeld key
    throw (.lockHeldExternally path)
  let pid := (← get).pid
  tryCatch (Wal.io do
    Io.setLength inode 0
    Io.append inode (toString pid ++ "\n").toUTF8) fun _ => pure ()
  return ⟨key, inode, token⟩

/-- Releases the lock. A failed unlock is ignored: closing the lock file lets go of its advisory
lock all the same. -/
def LogLock.release (l : LogLock) : Wal Unit := do
  tryCatch (Wal.io (Io.unlock l.token)) fun _ =>
    modify fun m => { m with disk := m.disk.unlock l.token }
  forgetHeld l.key

end EntityLog.Log
