import EntityLog.Proofs.Files.Steady
import EntityLog.Proofs.Log.Handles
/-!
# Who holds the lock of a log

A log takes its lock when it is opened and lets it go when it is closed; nothing in between
touches a lock. Every machine computation of the log but taking and releasing the lock is
steady (`Machine.Steady`), and every log computation but closing keeps the log's lock as well
(`LogSteady`). Taking the lock adds exactly one lock file to the set the process holds and one
advisory lock to the disk (`Acquired`); releasing it takes both away again, the failed unlock
included, so a log that was opened and closed, or failed to open, leaves the locks as it found
them whatever calls fail on the way.
-/

namespace EntityLog.Log

open EntityLog.Files EntityLog.Config EntityLog.Record

variable {α : Type}

/-! ## Machine computations that leave the locks alone -/

theorem Wal.io_steady {x : Io α} (hx : Stays Machine.Steady x) :
    Stays Machine.Steady (Wal.io x) :=
  hx.onMachine_io _

theorem fileLength_steady (p : Path) : Stays Machine.Steady (fileLength p) :=
  Wal.io_steady (Io.size?_steady p)

theorem loadCheckpoint_steady (p : Path) : Stays Machine.Steady (loadCheckpoint p) := by
  unfold loadCheckpoint
  refine Stays.bind (Stays.tryCatch (Stays.map (Wal.io_steady (Io.read_steady p))) fun e => ?_)
    fun content => ?_
  · split
    · exact Stays.pure _
    · exact Stays.throw _
  · split
    · exact Stays.pure _
    · split
      · exact Stays.pure _
      · exact Stays.throw _

theorem storeCheckpoint_steady (p : Path) (c : Checkpoint) :
    Stays Machine.Steady (storeCheckpoint p c) :=
  Wal.io_steady <| (Io.create_steady _ _).bind fun _ =>
    (Io.append_steady _ _).bind fun _ => (Io.sync_steady _).bind fun _ => Io.rename_steady _ _

namespace Backup

theorem present_steady (b : Backup) : Stays Machine.Steady b.present :=
  Wal.io_steady (Io.exists?_steady _)

theorem reconcile_steady (b : Backup) (live : Path) (position : Nat) :
    Stays Machine.Steady (b.reconcile live position) := by
  unfold reconcile
  dsimp only
  refine (fileLength_steady _).bind fun size => ?_
  -- the file is cut, copied or left alone, then the mirror handle is opened or not
  have hend : ∀ (c : Prop) [Decidable c] (y : Wal Backup), Stays Machine.Steady y →
      Stays Machine.Steady (if c then y else pure { b with mirror := none }) :=
    fun c _ y hy => Stays.ite hy (Stays.pure _)
  split
  · split
    · split
      · exact (Wal.io_steady ((Io.openWrite_steady _).bind fun _ => Io.setLength_steady _ _)).bind
          fun _ => hend _ _ ((Wal.io_steady (Io.openWrite_steady _)).bind fun _ => Stays.pure _)
      · exact (Wal.io_steady (Io.copy_steady _ _)).bind
          fun _ => hend _ _ ((Wal.io_steady (Io.openWrite_steady _)).bind fun _ => Stays.pure _)
    · exact (Wal.io_steady (Io.copy_steady _ _)).bind
        fun _ => hend _ _ ((Wal.io_steady (Io.openWrite_steady _)).bind fun _ => Stays.pure _)
  · exact hend _ _ ((Wal.io_steady (Io.openWrite_steady _)).bind fun _ => Stays.pure _)

theorem record_steady (b : Backup) (live : Path) (line : ByteArray) :
    Stays Machine.Steady (b.record live line) := by
  unfold record
  split
  · split
    · exact Wal.io_steady ((Io.append_steady _ _).bind fun _ => Io.sync_steady _)
    · exact Stays.throw _
  · exact (Wal.io_steady (Io.copy_steady _ _)).bind fun _ => Stays.pure _

theorem rollback_steady (b : Backup) (position : Nat) :
    Stays Machine.Steady (b.rollback position) := by
  unfold rollback
  refine Stays.tryCatch ?_ fun _ => Stays.pure _
  split
  · split
    · exact Wal.io_steady (Io.setLength_steady _ _)
    · exact Stays.pure _
  · refine Wal.io_steady ((Io.size?_steady _).bind fun size => ?_)
    split
    · split
      · exact (Io.openWrite_steady _).bind fun _ => Io.setLength_steady _ _
      · exact Stays.pure _
    · exact Stays.pure _

theorem restoreInto_steady (b : Backup) (live : Path) :
    Stays Machine.Steady (b.restoreInto live) := by
  unfold restoreInto
  dsimp only
  refine (present_steady b).bind fun present => ?_
  split
  · exact (Stays.throw _).bind fun _ => Wal.io_steady (Io.copy_steady _ _)
  · exact Wal.io_steady (Io.copy_steady _ _)

theorem close_steady (b : Backup) : Stays Machine.Steady b.close := by
  unfold close
  dsimp only
  split
  · exact (Stays.tryCatch (Wal.io_steady (Io.sync_steady _)) fun _ => Stays.pure _).bind
      fun _ => Stays.pure _
  · exact Stays.pure _

end Backup

theorem DurableLog.makeParent_steady (path : Path) : Stays Machine.Steady (DurableLog.makeParent path) := by
  unfold DurableLog.makeParent
  split
  · split
    · exact Wal.io_steady (Io.createDirAll_steady _)
    · exact Stays.pure _
  · exact Stays.pure _

/-! ## Log computations that keep the lock -/

/-- A step of a log that leaves its lock alone: the machine is steady and the log keeps its
lock. -/
structure LogSteady (s s' : Machine × DurableLog) : Prop where
  machine : s.1.Steady s'.1
  lock : s'.2.lock = s.2.lock

namespace LogSteady

theorem refl (s : Machine × DurableLog) : LogSteady s s := ⟨Machine.Steady.refl _, rfl⟩

theorem trans {s s' s'' : Machine × DurableLog} (h : LogSteady s s') (h' : LogSteady s' s'') :
    LogSteady s s'' :=
  ⟨h.machine.trans h'.machine, h'.lock.trans h.lock⟩

instance : Std.Refl LogSteady := ⟨refl⟩

instance : Trans LogSteady LogSteady LogSteady := ⟨trans⟩

end LogSteady

namespace LogIo

theorem wal_steady {x : Wal α} (hx : Stays Machine.Steady x) : Stays LogSteady (LogIo.wal x) := by
  rintro ⟨m, l⟩
  rw [wp_wal]
  exact hx.wp (fun _ _ h => ⟨h, rfl⟩) fun _ _ h => ⟨h, rfl⟩

theorem io_steady {x : Io α} (hx : Stays Machine.Steady x) : Stays LogSteady (LogIo.io x) :=
  wal_steady (Wal.io_steady hx)

theorem log_steady : Stays LogSteady LogIo.log := by
  rintro ⟨m, l⟩
  exact LogSteady.refl _

theorem update_steady {f : DurableLog → DurableLog} (hf : ∀ l, (f l).lock = l.lock) :
    Stays LogSteady (LogIo.update f) := by
  rintro ⟨m, l⟩
  exact ⟨Machine.Steady.refl m, hf l⟩

end LogIo

namespace DurableLog

open LogIo

theorem restore_steady : Stays LogSteady restore := by
  unfold restore
  dsimp only
  refine log_steady.bind fun l => (wal_steady (Backup.present_steady _)).bind fun present => ?_
  -- after the presence check: the live file is moved aside if it is there, then restored
  have htail : ∀ u : PUnit, Stays LogSteady ((io (Io.exists? l.paths.live)) >>= fun e =>
      (have jp := fun (_ : PUnit) => wal (l.backup.restoreInto l.paths.live) >>= fun r =>
        update (fun l => { l with recoveries := l.recoveries + 1 }) >>= fun _ => pure r
      if e = true then io Io.now >>= fun now => io (Io.rename l.paths.live (l.paths.corrupted now)) >>= jp
      else jp ())) := by
    intro _
    refine (io_steady (Io.exists?_steady _)).bind fun e => ?_
    have hjp : Stays LogSteady (wal (l.backup.restoreInto l.paths.live) >>= fun r =>
        update (fun l => { l with recoveries := l.recoveries + 1 }) >>= fun _ => pure r) :=
      (wal_steady (Backup.restoreInto_steady _ _)).bind fun _ =>
        (update_steady fun _ => by rfl).bind fun _ => Stays.pure _
    split
    · exact (io_steady Io.now_steady).bind fun _ =>
        (io_steady (Io.rename_steady _ _)).bind fun _ => hjp
    · exact hjp
  split
  · exact (Stays.throw _).bind htail
  · exact htail ⟨⟩

theorem checkpointFor_steady (paths : LogPaths) (stored : Option Checkpoint) (size : Nat) :
    Stays LogSteady (checkpointFor paths stored size) := by
  unfold checkpointFor
  split
  · refine Stays.ite (restore_steady.bind fun restored => ?_) (Stays.pure _)
    dsimp only
    exact Stays.ite ((Stays.throw _).bind fun _ => Stays.pure _) (Stays.pure _)
  · exact (io_steady Io.now_steady).bind fun _ =>
      (wal_steady (storeCheckpoint_steady _ _)).bind fun _ => Stays.pure _

theorem openAt_steady (paths : LogPaths) (checkpoint : Checkpoint) (size : Nat) :
    Stays LogSteady (openAt paths checkpoint size) := by
  unfold openAt
  dsimp only
  refine (io_steady (Io.create_steady _ _)).bind fun inode => ?_
  refine Stays.ite ((io_steady ((Io.setLength_steady _ _).bind fun _ => Io.sync_steady _)).bind
    fun _ => ?_) ?_
  all_goals
    exact log_steady.bind fun _ =>
      (wal_steady (Backup.reconcile_steady _ _ _)).bind fun _ => update_steady fun _ => by rfl

theorem init_steady : Stays LogSteady init := by
  unfold init
  exact log_steady.bind fun _ => (wal_steady (loadCheckpoint_steady _)).bind fun _ =>
    (wal_steady (fileLength_steady _)).bind fun _ => (checkpointFor_steady _ _ _).bind fun _ =>
      openAt_steady _ _ _

theorem dropFile_steady : Stays LogSteady dropFile := by
  unfold dropFile
  refine log_steady.bind fun l => ?_
  split
  · exact (update_steady fun _ => by rfl).bind fun _ =>
      Stays.tryCatch (io_steady (Io.sync_steady _)) fun _ => Stays.pure _
  · exact Stays.pure _

theorem isCorrupted_steady : Stays LogSteady isCorrupted := by
  unfold isCorrupted
  refine log_steady.bind fun l => Stays.tryCatch ?_ fun _ => Stays.pure _
  refine (io_steady (Io.size?_steady _)).bind fun size => ?_
  split
  · exact Stays.pure _
  · exact Stays.pure _

theorem recover_steady : Stays LogSteady recover := by
  unfold recover
  exact (update_steady fun _ => by rfl).bind fun _ => log_steady.bind fun _ =>
    (wal_steady (Backup.close_steady _)).bind fun _ => (update_steady fun _ => by rfl).bind
      fun _ => init_steady

theorem appendLine_steady (line : ByteArray) : Stays LogSteady (appendLine line) := by
  unfold appendLine
  dsimp only
  refine log_steady.bind fun l => ?_
  -- the handle, or a refusal as closed, then the append
  split
  all_goals refine Stays.bind (by first | exact Stays.pure _ | exact Stays.throw _) fun inode => ?_
  all_goals
    exact (io_steady ((Io.append_steady _ _).bind fun _ => Io.sync_steady _)).bind fun _ =>
      (wal_steady (Backup.record_steady _ _ _)).bind fun _ => (io_steady Io.now_steady).bind
        fun _ => (wal_steady (storeCheckpoint_steady _ _)).bind fun _ =>
          (update_steady fun _ => by rfl).bind fun _ => Stays.pure _

theorem rollback_steady : Stays LogSteady rollback := by
  unfold rollback
  dsimp only
  refine log_steady.bind fun l => ?_
  split
  · exact (Stays.tryCatch (io_steady (Io.setLength_steady _ _)) fun _ => Stays.pure _).bind
      fun _ => wal_steady (Backup.rollback_steady _ _)
  · exact wal_steady (Backup.rollback_steady _ _)

theorem appendOrUndo_steady (line : ByteArray) : Stays LogSteady (appendOrUndo line) := by
  unfold appendOrUndo
  refine Stays.tryCatch (appendLine_steady line) fun e => isCorrupted_steady.bind fun bad => ?_
  dsimp only
  exact Stays.ite
    ((Stays.tryCatch recover_steady fun _ => Stays.pure _).bind fun _ => Stays.throw _)
    (rollback_steady.bind fun _ => Stays.throw _)

theorem write_steady (r : ChangeRecord) : Stays LogSteady (write r) := by
  unfold write
  dsimp only
  refine log_steady.bind fun l => ?_
  refine Stays.ite ((Stays.throw _).bind fun _ => ?_) ?_
  all_goals
    exact isCorrupted_steady.bind fun bad =>
      Stays.ite (recover_steady.bind fun _ => appendOrUndo_steady _) (appendOrUndo_steady _)

end DurableLog

/-! ## Taking and releasing the lock -/

/-- Every advisory lock on the disk has a token below the counter: a new token is no one's. -/
def TokensBelow (m : Machine) : Prop := ∀ p ∈ m.disk.locks, p.2 < m.disk.fresh

/-- `m'` is `m` with the disk's advisory locks replaced by `locks`. -/
structure Relocked (m m' : Machine) (locks : List (Nat × Nat)) : Prop where
  held : m'.held = m.held
  faults : m'.faults = m.faults
  clock : m'.clock = m.clock
  cwd : m'.disk.cwd = m.disk.cwd
  fresh : m'.disk.fresh = m.disk.fresh
  locks : m'.disk.locks = locks

theorem tryLock_spec (inode token : Nat) (m : Machine) :
    wp (Io.tryLock inode token)
      (fun _ m' => Relocked m m' (m.disk.locks.filter (·.2 != token) ++ [(inode, token)]))
      (fun _ m' => m.Steady m') m := by
  simp only [Io.tryLock, Io.change, Io.call, wp_bind, wp_get, wp_set]
  split
  · exact ⟨rfl, rfl, rfl, Disk.Grows.refl _⟩
  · -- another holder refuses the lock; otherwise it replaces the holder's own
    simp only [Disk.tryLock]
    split_ifs
    · simp only [bind, Except.bind]
      exact ⟨rfl, rfl, rfl, Disk.Grows.refl _⟩
    · simp only [bind, Except.bind, pure, Except.pure]
      exact ⟨rfl, rfl, rfl, rfl, rfl, rfl⟩

/-- Releasing an advisory lock takes it off the disk; a failed call leaves the disk as it was,
for the caller to take it off itself. -/
theorem unlock_spec (token : Nat) (m : Machine) :
    wp (Io.unlock token) (fun _ m' => Relocked m m' (m.disk.locks.filter (·.2 != token)))
      (fun _ m' => Relocked m { m' with disk := m'.disk.unlock token }
        (m.disk.locks.filter (·.2 != token))) m := by
  simp only [Io.unlock, Io.change, Io.call, wp_bind, wp_get, wp_set]
  split <;> exact ⟨rfl, rfl, rfl, rfl, rfl, rfl⟩

theorem filter_ne_append_self {key : List String} {held : List (List String)}
    (h : key ∉ held) : (held ++ [key]).filter (· != key) = held := by
  have hne : ∀ x ∈ held, (x != key) = true := by
    intro x hx
    simpa using fun (hxk : x = key) => h (hxk ▸ hx)
  simp [List.filter_append, List.filter_eq_self.2 hne]

theorem filter_token_eq_self {locks : List (Nat × Nat)} {token : Nat}
    (h : ∀ p ∈ locks, p.2 ≠ token) : locks.filter (·.2 != token) = locks :=
  List.filter_eq_self.2 fun p hp => by simpa using h p hp

/-- The lock `lk` was taken on the way from `m` to `m'`: its canonical path joined the held set,
which did not have it, and its advisory lock joined the disk's under a token that no lock there
had; the fault plan, the clock and the working directory stayed, and the counter only grew. -/
structure Acquired (m m' : Machine) (lk : LogLock) : Prop where
  held : m'.held = m.held ++ [lk.key]
  key_new : lk.key ∉ m.held
  locks : m'.disk.locks = m.disk.locks ++ [(lk.inode, lk.token)]
  token_new : ∀ p ∈ m.disk.locks, p.2 ≠ lk.token
  faults : m'.faults = m.faults
  clock : m'.clock = m.clock
  cwd : m'.disk.cwd = m.disk.cwd
  fresh : m.disk.fresh ≤ m'.disk.fresh
  token_lt : lk.token < m'.disk.fresh

theorem Acquired.steady {m m' m'' : Machine} {lk : LogLock} (h : Acquired m m' lk)
    (h' : m'.Steady m'') : Acquired m m'' lk :=
  ⟨h'.held.trans h.held, h.key_new, h'.disk.locks.trans h.locks, h.token_new,
    h'.faults.trans h.faults, h'.clock.trans h.clock, h'.disk.cwd.trans h.cwd,
    Nat.le_trans h.fresh h'.disk.fresh, Nat.lt_of_lt_of_le h.token_lt h'.disk.fresh⟩

theorem Acquired.of_steady {m m' m'' : Machine} {lk : LogLock} (h : m.Steady m')
    (h' : Acquired m' m'' lk) : Acquired m m'' lk :=
  ⟨h'.held.trans (by rw [h.held]), h.held ▸ h'.key_new, h'.locks.trans (by rw [h.disk.locks]),
    h.disk.locks ▸ h'.token_new, h'.faults.trans h.faults, h'.clock.trans h.clock,
    h'.cwd.trans h.disk.cwd, Nat.le_trans h.disk.fresh h'.fresh, h'.token_lt⟩

theorem TokensBelow.of_steady {m m' : Machine} (hm : TokensBelow m) (h : m.Steady m') :
    TokensBelow m' := by
  intro p hp
  rw [h.disk.locks] at hp
  exact Nat.lt_of_lt_of_le (hm p hp) h.disk.fresh

theorem TokensBelow.of_acquired {m m' : Machine} {lk : LogLock} (hm : TokensBelow m)
    (h : Acquired m m' lk) : TokensBelow m' := by
  intro p hp
  rw [h.locks, List.mem_append, List.mem_singleton] at hp
  rcases hp with hp | rfl
  · exact Nat.lt_of_lt_of_le (hm p hp) h.fresh
  · exact h.token_lt

theorem acquire_spec (path : Path) {m : Machine} (hm : TokensBelow m) :
    wp (LogLock.acquire path) (fun lk m' => Acquired m m' lk) (fun _ m' => m.Steady m') m := by
  simp only [LogLock.acquire, wp_bind]
  refine (Wal.io_steady (Io.create_steady path false)).wp (fun inode m1 h1 => ?_) fun _ _ h => h
  rw [wp_bind]
  refine (Wal.io_steady (Io.canonical_steady path)).wp (fun key m2 h2 => ?_)
    fun _ _ h => h1.trans h
  have h12 := h1.trans h2
  simp only [wp_bind, wp_get]
  split
  · rw [wp_bind, wp_throw]
    exact h12
  · rename_i hnew
    have hkey : key ∉ m.held := by
      rw [← h12.held]
      simpa using hnew
    simp only [wp_bind, wp_set, Wal.io, wp_onMachine_io, Io.token, wp_get, wp_pure, wp_tryCatch]
    -- the new token is the counter before the call: no lock on the disk has it
    have htoken : ∀ p ∈ m.disk.locks, p.2 < m2.disk.newToken.2 :=
      fun p hp => Nat.lt_of_lt_of_le (hm p hp) h12.disk.fresh
    have hgrows : m2.disk.Grows m2.disk.newToken.1 := ⟨rfl, rfl, Nat.le_succ _⟩
    refine wp_mono (tryLock_spec inode _ _) (fun _ m5 h5 => ?_) fun _ m5 h5 => ?_
    · have hacq : Acquired m m5 ⟨key, inode, m2.disk.newToken.2⟩ := by
        refine ⟨by rw [h5.held, h12.held], hkey, ?_, fun p hp => Nat.ne_of_lt (htoken p hp),
          by rw [h5.faults, h12.faults], by rw [h5.clock, h12.clock],
          by rw [h5.cwd, hgrows.cwd, h12.disk.cwd], ?_, ?_⟩
        · rw [h5.locks, hgrows.locks, h12.disk.locks,
            filter_token_eq_self fun p hp => Nat.ne_of_lt (htoken p hp)]
        · rw [h5.fresh]
          exact Nat.le_trans h12.disk.fresh hgrows.fresh
        · rw [h5.fresh]
          exact Nat.lt_succ_self _
      simp only [wp_bind, wp_get, wp_tryCatch]
      have hpid : Stays Machine.Steady (Io.setLength inode 0 >>= fun _ =>
          Io.append inode (toString m5.pid ++ "\n").toUTF8) :=
        (Io.setLength_steady _ _).bind fun _ => Io.append_steady _ _
      rw [wp_onMachine_io]
      exact hpid.wp (fun _ _ h6 => hacq.steady h6) fun _ _ h6 => hacq.steady h6
    · -- refused by another holder: the path leaves the held set again
      simp only [forgetHeld, wp_bind, wp_modify, wp_throw]
      have hheld : (m2.held ++ [key]).filter (· != key) = m2.held :=
        filter_ne_append_self (by simpa using hnew)
      refine ⟨?_, by simp only [h5.faults, h12.faults], by simp only [h5.clock, h12.clock],
        h12.disk.trans (hgrows.trans h5.disk)⟩
      simp only [h5.held]
      exact hheld.trans h12.held

/-- Once the advisory lock of `lk`, taken since `m`, is off the disk, forgetting its lock file
gives back the locks of `m`. -/
theorem steady_of_relocked {m m' m2 : Machine} {lk : LogLock} (h : Acquired m m' lk)
    (h2 : Relocked m' m2 (m'.disk.locks.filter (·.2 != lk.token))) :
    m.Steady { m2 with held := m2.held.filter (· != lk.key) } := by
  refine ⟨?_, h2.faults.trans h.faults, h2.clock.trans h.clock, ⟨?_, h2.cwd.trans h.cwd, ?_⟩⟩
  · simp only [h2.held, h.held]
    exact filter_ne_append_self h.key_new
  · simp only [h2.locks, h.locks, List.filter_append, filter_token_eq_self h.token_new]
    simp
  · rw [h2.fresh]
    exact h.fresh

/-- Releasing a lock taken since `m` gives back the locks of `m`, whether the unlock call fails or
not: the release undoes the acquisition, and the machine is steady from `m`. -/
theorem release_spec {m m' : Machine} {lk : LogLock} (h : Acquired m m' lk) :
    wp lk.release (fun _ m'' => m.Steady m'') (fun _ _ => False) m' := by
  simp only [LogLock.release, wp_bind, wp_tryCatch, Wal.io, wp_onMachine_io, forgetHeld]
  exact wp_mono (unlock_spec lk.token m') (fun _ _ h2 => steady_of_relocked h h2)
    fun _ _ h2 => steady_of_relocked h h2

/-- A machine whose calls never fail. -/
def Quiet (m : Machine) : Prop := ∀ n, m.faults n = none

theorem Quiet.of_steady {m m' : Machine} (hq : Quiet m) (h : m.Steady m') : Quiet m' := by
  intro n
  rw [h.faults]
  exact hq n

/-- A machine whose failing calls never report a missing file. -/
def Honest (m : Machine) : Prop := ∀ n, m.faults n ≠ some .notFound

theorem Quiet.honest {m : Machine} (hq : Quiet m) : Honest m := by
  intro n h
  rw [hq n] at h
  cases h

theorem Honest.of_faults {m m' : Machine} (hh : Honest m) (h : m'.faults = m.faults) :
    Honest m' := by
  intro n
  rw [h]
  exact hh n

namespace DurableLog

open LogIo

variable {m0 m : Machine} {l : DurableLog} {lk : LogLock}

theorem dropFile_succeeds : wp dropFile (fun _ s => LogSteady (m, l) s) (fun _ _ => False) (m, l) := by
  simp only [dropFile, wp_bind, wp_log]
  split
  · simp only [wp_bind, wp_update, wp_tryCatch, wp_io, wp_pure]
    exact (Io.sync_steady _).wp (fun _ _ h => ⟨h, rfl⟩) fun _ _ h => ⟨h, rfl⟩
  · exact LogSteady.refl _

theorem dropLock_releases (hl : l.lock = some lk) (h : Acquired m0 m lk) :
    wp dropLock (fun _ s => m0.Steady s.1 ∧ s.2.lock = none) (fun _ _ => False) (m, l) := by
  simp only [dropLock, wp_bind, wp_log, hl, wp_update, wp_wal]
  exact wp_mono (release_spec h) (fun _ _ h' => ⟨h', trivial⟩) fun _ _ h' => h'.elim

/-- Closing a log that holds a lock taken since `m0` gives back the locks of `m0`, whatever
calls fail. -/
theorem close_releases (hl : l.lock = some lk) (h : Acquired m0 m lk) :
    wp close (fun _ s => m0.Steady s.1 ∧ s.2.lock = none) (fun _ _ => False) (m, l) := by
  rw [close, wp_bind]
  refine wp_mono dropFile_succeeds ?_ fun _ _ h => h.elim
  rintro _ ⟨m1, l1⟩ h1
  simp only [wp_bind, wp_log, wp_wal, wp_update]
  refine wp_mono (wp_and (Backup.close_spec l1.backup m1) (Backup.close_steady l1.backup m1))
    (fun _ m2 h2 => ?_) fun _ _ h => h.1.elim
  have h12 := h1.machine.trans h2.2
  exact dropLock_releases (h1.lock.trans hl) (h.steady h12)

/-- Opening a log with its files takes its lock, which the opened log holds; a failed open
closes the log again, which gives the lock back, whatever calls fail. -/
theorem openLocked_owns (paths : LogPaths) (policy : BackupPolicy) (hm : TokensBelow m) :
    wp (openLocked paths policy) (fun l m' => ∃ lk, l.lock = some lk ∧ Acquired m m' lk)
      (fun _ m' => m.Steady m') m := by
  rw [openLocked, wp_bind]
  refine wp_mono (acquire_spec paths.lock hm) (fun lk m1 h1 => ?_) fun _ _ h => h
  simp only [wp_bind, Wal.io, wp_onMachine_io, Io.now, wp_get, wp_pure, wp_runOn]
  refine init_steady.wp ?_ ?_
  · rintro _ ⟨m2, l2⟩ h2
    exact ⟨lk, h2.lock, h1.steady h2.machine⟩
  · -- the failed open is closed, which releases the lock
    rintro e ⟨m2, l2⟩ h2
    have hacq := h1.steady h2.machine
    exact wp_mono (close_releases (l := l2) h2.lock hacq)
      (fun _ _ h3 => h3.1) fun _ _ h3 => h3.elim

theorem makeParent_wp {path : Path} {Q : Unit → Machine → Prop} {E : WalError → Machine → Prop}
    (hq : ∀ m', m.Steady m' → Q () m') (he : ∀ e m', m.Steady m' → E e m') :
    wp (makeParent path) Q E m :=
  (makeParent_steady path).wp (fun _ m' h => hq m' h) fun e m' h => he e m' h

/-- Opening a log takes its lock; a failed open leaves the locks as they were. -/
theorem openLog_owns (path : Path) (policy : BackupPolicy) (hm : TokensBelow m) :
    wp (openLog path policy) (fun l m' => ∃ lk, l.lock = some lk ∧ Acquired m m' lk)
      (fun _ m' => m.Steady m') m := by
  rw [openLog, wp_bind]
  refine makeParent_wp (fun m1 h1 => ?_) fun _ _ h => h
  exact wp_mono (openLocked_owns _ _ (hm.of_steady h1))
    (fun _ _ h => h.imp fun _ hlk => ⟨hlk.1, Acquired.of_steady h1 hlk.2⟩) fun _ _ h => h1.trans h

end DurableLog

end EntityLog.Log
