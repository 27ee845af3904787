import EntityLog.Proofs.Log.Checkpoints
import EntityLog.Proofs.Log.Ownership
/-!
# Opening a log leaves its files in place

A log at `live` is intact on a machine (`Intact`) when no call of the machine is planned to
report a missing file and its clock gives valid instants, the log's paths are those of the log at `live`, and every file the log
has open is named at its path. It is settled (`Settled`) when its checkpoint is besides the one
stored in the checkpoint file.

Opening loads the stored checkpoint, restores the live file from the backup when it falls short,
cuts it back to the checkpoint and reconciles the backup. Started from an intact log with no open
file, it settles the log when it succeeds, at the checkpoint that was stored when that one fits
64 bits; when it fails, the log is left intact with no open file and its checkpoint, and a
checkpoint stored before is still stored (`init_settles`).
-/

namespace EntityLog.Files

namespace Disk

variable {d : Disk}

/-- A file opened for writing is the file its path names. -/
theorem openForWrite_ok {p : Path} {k : Nat} (h : d.openForWrite p = .ok k) :
    d.nodeAt (d.locate p) = some (.file k) := by
  unfold openForWrite at h
  cases hstat : d.stat p with
  | error e => simp [hstat, bind, Except.bind] at h
  | ok n =>
    obtain ⟨segs, hreach, hnode⟩ := stat_ok hstat
    rw [reach_eq_locate hreach] at hnode
    cases n with
    | file i =>
      simp only [hstat, bind, Except.bind, pure, Except.pure, Except.ok.injEq] at h
      rw [← h]
      exact hnode
    | dir => simp [hstat, bind, Except.bind, throw, throwThe, MonadExceptOf.throw] at h

end Disk

namespace Io

theorem create_named (p : Path) (truncate : Bool) (m : Machine) :
    wp (create p truncate) (fun i m' => m'.disk.nodeAt (m'.disk.locate p) = some (.file i))
      (fun _ _ => True) m := by
  refine wp_mono (call_spec _ m) (fun i m' h => ?_) fun _ _ _ => trivial
  have hC := Disk.create_created h.2.2
  rw [Disk.locate_of_cwd hC.grows.cwd]
  exact hC.named

/-- Reading the clock gives the instant of the next call and changes nothing. -/
theorem now_spec (m : Machine) :
    wp now (fun t m' => m' = m ∧ t = m.clock m.calls) (fun _ _ => False) m :=
  ⟨rfl, rfl⟩

theorem openWrite_named (p : Path) (m : Machine) :
    wp (openWrite p) (fun k m' => m'.disk.nodeAt (m'.disk.locate p) = some (.file k))
      (fun _ _ => True) m := by
  refine wp_mono (look_spec _ m) (fun k m' h => ?_) fun _ _ _ => trivial
  rw [h.2.2.1]
  exact Disk.openForWrite_ok h.2.2.2

end Io

end EntityLog.Files

namespace EntityLog.Log

open EntityLog.Files EntityLog.Json Path

section Frames

variable {paths : LogPaths} {opened : List (Path × Nat)}

/-- Cutting the file at a path other than the checkpoint keeps the files. -/
theorem Io.cut_keeps {p : Path} (hp : ∀ d : Disk, d.locate p ≠ d.locate paths.checkpoint)
    (n : Nat) : Stays (Keeps paths opened) (Io.openWrite p >>= fun inode => Io.setLength inode n) := by
  intro m
  rw [wp_bind]
  refine wp_mono (wp_and (Io.openWrite_named p m) (Io.openWrite_keeps p m))
    (fun k m1 h1 => ?_) fun _ _ h => h.2
  -- the file opened is placed at `p` while it is cut
  have hcut : ∀ m2, Keeps paths ((p, k) :: opened) m1 m2 → Keeps paths opened m m2 :=
    fun m2 h2 => h1.2.trans (h2.of_cons h1.1)
  exact (Io.setLength_keeps hp List.mem_cons_self n).wp (fun _ m2 h2 => hcut m2 h2)
    fun _ m2 h2 => hcut m2 h2

theorem fileLength_keeps (p : Path) : Stays (Keeps paths opened) (fileLength p) :=
  Wal.io_keeps (Io.size?_keeps p)

theorem forgetHeld_keeps (key : List String) : Stays (Keeps paths opened) (forgetHeld key) := by
  intro m
  simp only [forgetHeld, wp_modify]
  exact Keeps.of_disk rfl rfl rfl

/-- Letting go of a lock whose unlock call failed only drops the lock. -/
theorem unlockAnyway_keeps (token : Nat) :
    Stays (Keeps paths opened)
      (modify fun m : Machine => { m with disk := m.disk.unlock token } : Wal Unit) := by
  intro m
  simp only [wp_modify]
  exact ⟨rfl, rfl, FilesKept.of_same rfl rfl rfl rfl⟩

theorem LogLock.release_keeps (lk : LogLock) : Stays (Keeps paths opened) lk.release :=
  (Stays.tryCatch (Wal.io_keeps (Io.unlock_keeps _)) fun _ => unlockAnyway_keeps _).bind
    fun _ => forgetHeld_keeps _

/-- Taking a lock keeps the files: the lock file, written with the process id, is apart from the
checkpoint. -/
theorem LogLock.acquire_keeps {path : Path}
    (hlock : ∀ d : Disk, d.locate path ≠ d.locate paths.checkpoint) :
    Stays (Keeps paths opened) (LogLock.acquire path) := by
  intro m
  simp only [LogLock.acquire, wp_bind]
  rw [Wal.io, wp_onMachine_io]
  refine wp_mono (wp_and (Io.create_named path false m) (Io.create_keeps hlock false m))
    (fun inode m1 h1 => ?_) fun _ _ h => h.2
  obtain ⟨hi1, hk1⟩ := h1
  -- the lock file stays placed at its path while it is locked and written
  have hk : ∀ m2, Keeps paths ((path, inode) :: opened) m1 m2 → Keeps paths opened m m2 :=
    fun m2 h2 => hk1.trans (h2.of_cons hi1)
  rw [wp_bind]
  refine (Wal.io_keeps (Io.canonical_keeps path)).wp (fun key m2 h2 => ?_) fun _ _ h => hk _ h
  simp only [wp_bind, wp_get]
  split
  · rw [wp_bind, wp_throw]
    exact hk _ h2
  · simp only [wp_bind, wp_set]
    have hm2 : Keeps paths ((path, inode) :: opened) m1 { m2 with held := m2.held ++ [key] } :=
      h2.trans (Keeps.of_disk rfl rfl rfl)
    refine (Wal.io_keeps Io.token_keeps).wp (fun token m3 h3 => ?_) fun _ _ h => hk _ (hm2.trans h)
    have hm3 := hm2.trans h3
    refine Stays.wp (?_ : Stays (Keeps paths ((path, inode) :: opened)) _)
      (fun _ _ h => hk _ (hm3.trans h)) fun _ _ h => hk _ (hm3.trans h)
    refine (Stays.tryCatch (Wal.io_keeps (Io.tryLock_keeps _ _))
      fun _ => (forgetHeld_keeps _).bind fun _ => Stays.throw _).bind fun _ => ?_
    refine Stays.get.bind fun _ => ?_
    exact (Stays.tryCatch (Wal.io_keeps ((Io.setLength_keeps hlock List.mem_cons_self 0).bind
      fun _ => Io.append_keeps hlock List.mem_cons_self _)) fun _ => Stays.pure _).bind
      fun _ => Stays.pure _

namespace Backup

theorem present_keeps (b : Backup) : Stays (Keeps paths opened) b.present :=
  Wal.io_keeps (Io.exists?_keeps _)

theorem restoreInto_keeps (b : Backup) {live : Path}
    (hlive : ∀ d : Disk, d.locate live ≠ d.locate paths.checkpoint) :
    Stays (Keeps paths opened) (b.restoreInto live) := by
  unfold restoreInto
  dsimp only
  refine (present_keeps b).bind fun present => ?_
  split
  · exact (Stays.throw _).bind fun _ => Wal.io_keeps (Io.copy_keeps hlive _)
  · exact Wal.io_keeps (Io.copy_keeps hlive _)

/-- Bringing the backup in line keeps the files, and the mirror handle it opens names the
backup. -/
theorem reconcile_keeps (b : Backup) (hb : ∀ d : Disk, d.locate b.path ≠ d.locate paths.checkpoint)
    (live : Path) (position : Nat) (m : Machine) :
    wp (b.reconcile live position)
      (fun b' m' => Keeps paths opened m m' ∧ b'.path = b.path ∧ b'.policy = b.policy ∧
        ∀ k, b'.mirror = some k → m'.disk.nodeAt (m'.disk.locate b.path) = some (.file k))
      (fun _ m' => Keeps paths opened m m') m := by
  unfold reconcile
  dsimp only
  -- under the mirror policy the backup is opened again, and its handle names it
  have hend : ∀ m1, Keeps paths opened m m1 →
      wp (if (b.policy == .mirror) = true then
          (do let inode ← Wal.io (Io.openWrite b.path); pure { b with mirror := some inode })
        else pure { b with mirror := none })
        (fun b' m' => Keeps paths opened m m' ∧ b'.path = b.path ∧ b'.policy = b.policy ∧
          ∀ k, b'.mirror = some k → m'.disk.nodeAt (m'.disk.locate b.path) = some (.file k))
        (fun _ m' => Keeps paths opened m m') m1 := by
    intro m1 h1
    split
    · rw [wp_bind, Wal.io, wp_onMachine_io]
      refine wp_mono (wp_and (Io.openWrite_named _ m1) (Io.openWrite_keeps _ m1))
        (fun k m2 h2 => ⟨h1.trans h2.2, rfl, rfl, fun k' hk' => ?_⟩) fun _ _ h => h1.trans h.2
      cases hk'
      exact h2.1
    · exact ⟨h1, rfl, rfl, fun k hk => by cases hk⟩
  rw [wp_bind]
  refine (fileLength_keeps _).wp (fun size m1 h1 => ?_) fun _ _ h => h
  -- the backup is cut, replaced by a copy of the live file, or left as it is
  split
  · split
    · split
      · rw [wp_bind]
        exact (Wal.io_keeps (Io.cut_keeps hb _)).wp (fun _ m2 h2 => hend m2 (h1.trans h2))
          fun _ _ h2 => h1.trans h2
      · rw [wp_bind]
        exact (Wal.io_keeps (Io.copy_keeps hb _)).wp (fun _ m2 h2 => hend m2 (h1.trans h2))
          fun _ _ h2 => h1.trans h2
    · rw [wp_bind]
      exact (Wal.io_keeps (Io.copy_keeps hb _)).wp (fun _ m2 h2 => hend m2 (h1.trans h2))
        fun _ _ h2 => h1.trans h2
  · exact hend m1 h1

theorem close_keeps (b : Backup) : Stays (Keeps paths opened) b.close := by
  unfold close
  dsimp only
  split
  · exact (Stays.tryCatch (Wal.io_keeps (Io.sync_keeps _)) fun _ => Stays.pure _).bind
      fun _ => Stays.pure _
  · exact Stays.pure _

end Backup

end Frames

/-! ## The files of a log in place -/

namespace DurableLog

/-- The files a log has open, each with the path it opened it at. -/
def opened (l : DurableLog) : List (Path × Nat) :=
  (l.file.map (l.paths.live, ·)).toList ++ (l.backup.mirror.map (l.backup.path, ·)).toList

/-- `l'` is `l` but perhaps for its count of recoveries. -/
def Recounted (l l' : DurableLog) : Prop := l' = { l with recoveries := l'.recoveries }

end DurableLog

/-- The log at `live` is intact on a machine: no call of it is planned to report a missing file,
its clock gives valid instants, the log has the paths of the log at `live`, and its open files
are in place. -/
structure Intact (live : Path) (s : Machine × DurableLog) : Prop where
  honest : Honest s.1
  clock : ∀ n, (s.1.clock n).Valid
  paths : s.2.paths = LogPaths.forLog live
  backup : s.2.backup.path = (LogPaths.forLog live).backup
  placed : Placed s.2.opened s.1.disk

/-- An intact log whose checkpoint is the one stored. -/
structure Settled (live : Path) (s : Machine × DurableLog) : Prop extends Intact live s where
  stored : Stored (LogPaths.forLog live) s.2.checkpoint s.1.disk

section Invariant

variable {live : Path} {N : String} {m m' : Machine} {l : DurableLog}

/-- The files a log at `live` has open are apart from its checkpoint and the checkpoint's
temporary file. -/
theorem Intact.apart (hlive : fileName live = some N) (hi : Intact live (m, l)) {p : Path}
    {j : Nat} (h : (p, j) ∈ l.opened) (d : Disk) :
    d.Apart p (temporaryOf (LogPaths.forLog live).checkpoint) ∧
      d.Apart p (LogPaths.forLog live).checkpoint := by
  have hA := forLog_apart hlive
  have hp : l.paths = LogPaths.forLog live := hi.paths
  have hb : l.backup.path = (LogPaths.forLog live).backup := hi.backup
  simp only [DurableLog.opened, hp, hb, List.mem_append, Option.mem_toList, Option.map_eq_some_iff,
    Prod.mk.injEq] at h
  rcases h with ⟨_, _, rfl, -⟩ | ⟨_, _, rfl, -⟩
  · exact ⟨hA.live_temporary d, (hA.checkpoint_live d).symm⟩
  · exact ⟨hA.backup_temporary d, (hA.checkpoint_backup d).symm⟩

theorem Intact.keeps (hi : Intact live (m, l)) (hk : Keeps (LogPaths.forLog live) l.opened m m') :
    Intact live (m', l) where
  honest := hi.honest.of_faults hk.faults
  clock n := by
    rw [hk.clock]
    exact hi.clock n
  paths := hi.paths
  backup := hi.backup
  placed := (hk.files hi.placed).1

theorem Settled.keeps (hs : Settled live (m, l))
    (hk : Keeps (LogPaths.forLog live) l.opened m m') : Settled live (m', l) :=
  { hs.toIntact.keeps hk with stored := (hk.files hs.placed).2 _ hs.stored }

/-- Where no checkpoint is stored, a step that keeps the clock, the fault plan and a sound disk
keeps the files of a log with nothing open. -/
theorem Keeps.of_unstored {paths : LogPaths} (hns : ∀ ck, ¬ Stored paths ck m.disk)
    (hc : m'.clock = m.clock) (hf : m'.faults = m.faults) (hsound : m.disk.Sound → m'.disk.Sound) :
    Keeps paths [] m m' :=
  ⟨hc, hf, fun hp => ⟨⟨hsound hp.sound, fun h => nomatch h⟩, fun ck hs => (hns ck hs).elim⟩⟩

end Invariant

/-! ## Opening keeps the files and stores the checkpoint -/

theorem DurableLog.Recounted.refl (l : DurableLog) : l.Recounted l := rfl

theorem DurableLog.Recounted.opened {l l' : DurableLog} (h : l.Recounted l') :
    l'.opened = l.opened := by
  rw [h]
  rfl

section Opening

variable {live : Path} {N : String} {m : Machine} {l : DurableLog}

/-- A log with nothing open stays intact along a step that keeps its files, whatever its count
of recoveries becomes. -/
theorem Intact.recount (hi : Intact live (m, l)) (hclosed : l.opened = []) {m' : Machine}
    {l' : DurableLog} (hk : Keeps (LogPaths.forLog live) [] m m') (hr : l.Recounted l') :
    Intact live (m', l') := by
  have h' := hi.keeps (hclosed ▸ hk)
  rw [hr]
  exact ⟨h'.honest, h'.clock, h'.paths, h'.backup, h'.placed⟩

namespace DurableLog

/-- Restoring the live file keeps the files of a log with nothing open. -/
theorem restore_keeps (hlive : fileName live = some N) (hp : l.paths = LogPaths.forLog live) :
    wp restore (fun _ s => Keeps (LogPaths.forLog live) [] m s.1)
      (fun _ s => Keeps (LogPaths.forLog live) [] m s.1) (m, l) := by
  have hA := forLog_apart hlive
  have hlive' : ∀ d : Disk, d.locate (LogPaths.forLog live).live ≠
      d.locate (LogPaths.forLog live).checkpoint := fun d => (hA.checkpoint_live d).ne.symm
  simp only [restore, wp_bind, wp_log, wp_wal, hp]
  refine (Backup.present_keeps _).wp (fun present m1 h1 => ?_) fun _ _ h => h
  split
  · rw [wp_bind, wp_throw]
    exact h1
  · simp only [wp_bind, wp_io]
    refine (Io.exists?_keeps _).wp (fun aside m2 h2 => ?_) fun _ _ h => h1.trans h
    have hk2 := h1.trans h2
    split
    · -- a live file that is there is moved aside first
      simp only [wp_bind, wp_io, wp_wal, wp_update, wp_pure]
      refine Io.now_keeps.wp (fun now m3 h3 => ?_) fun _ _ h => hk2.trans h
      refine (Io.rename_keeps (hA.checkpoint_live ·) (hA.checkpoint_aside · now)
        fun h => absurd h List.not_mem_nil).wp (fun _ m4 h4 => ?_) fun _ _ h => (hk2.trans h3).trans h
      have hk4 := (hk2.trans h3).trans h4
      exact (Backup.restoreInto_keeps _ hlive').wp (fun _ _ h => hk4.trans h)
        fun _ _ h => hk4.trans h
    · simp only [wp_bind, wp_wal, wp_update, wp_pure]
      exact (Backup.restoreInto_keeps _ hlive').wp (fun _ _ h => hk2.trans h)
        fun _ _ h => hk2.trans h

/-- Choosing the checkpoint of a log, from the one loaded and the size of the
live file. When it succeeds the files are kept and the checkpoint chosen is stored: it is the one
loaded, and a new one is stored only where none was before. When it fails the files are kept. -/
theorem checkpointFor_settles (hlive : fileName live = some N) (hi : Intact live (m, l))
    {stored : Option Checkpoint}
    (hsome : ∀ c, stored = some c → Stored (LogPaths.forLog live) c m.disk)
    (hnone : stored = none → ∀ ck, Stored (LogPaths.forLog live) ck m.disk →
      m.disk.reach (LogPaths.forLog live).checkpoint = .error .notFound)
    (size : Nat) :
    wp (checkpointFor (LogPaths.forLog live) stored size)
      (fun r s => Keeps (LogPaths.forLog live) [] m s.1 ∧ l.Recounted s.2 ∧
        Stored (LogPaths.forLog live) r.1 s.1.disk ∧ (∀ c, stored = some c → r.1 = c) ∧
        (stored = none → ∀ ck, ¬ Stored (LogPaths.forLog live) ck m.disk))
      (fun _ s => Keeps (LogPaths.forLog live) [] m s.1 ∧ l.Recounted s.2) (m, l) := by
  have hplaced : Placed [] m.disk := hi.placed.nil
  unfold checkpointFor
  split
  · -- a checkpoint was loaded: it is kept, after a restore when the live file falls short of it
    rename_i c
    have hc := hsome c rfl
    split
    · rw [wp_bind]
      refine wp_mono (wp_and restore_spec (restore_keeps hlive hi.paths))
        (fun restored ⟨m1, l1⟩ h1 => ?_) fun _ _ h => ⟨h.2, by rw [h.1.1]; exact Recounted.refl l⟩
      obtain ⟨hl1, hk1⟩ := h1
      simp only at hl1 hk1
      subst hl1
      split
      · rw [wp_bind, wp_throw]
        exact ⟨hk1, rfl⟩
      · exact ⟨hk1, rfl, (hk1.files hplaced).2 c hc, fun _ h => Option.some.inj h,
          fun h => nomatch h⟩
    · exact ⟨Keeps.refl m, Recounted.refl l, hc, fun _ h => Option.some.inj h,
        fun h => nomatch h⟩
  · -- none was loaded: a new checkpoint at the live file's size is stored
    rw [wp_bind, wp_io]
    refine wp_mono (Io.now_spec m) (fun now m1 h1 => ?_) fun _ _ h => h.elim
    obtain ⟨h1m, rfl⟩ := h1
    subst m1
    simp only [wp_bind, wp_wal, wp_pure]
    have hts : (Checkpoint.at size (m.clock m.calls)).timestamp.Valid := hi.clock _
    have hstore := storeCheckpoint_spec hlive hts (fun h => absurd h List.not_mem_nil) hplaced
    cases hreach : m.disk.reach (LogPaths.forLog live).checkpoint with
    | error e =>
      -- without the checkpoint's directory nothing is stored
      exact wp_mono (wp_and hstore (storeCheckpoint_unreachable hlive hreach))
        (fun _ _ h => h.2.elim) fun _ _ h => ⟨h.1, Recounted.refl l⟩
    | ok segs =>
      -- the directory is there, so no checkpoint was stored before
      have hns : ∀ ck, ¬ Stored (LogPaths.forLog live) ck m.disk := fun ck hs => by
        rw [hnone rfl ck hs] at hreach
        cases hreach
      refine wp_mono hstore (fun _ m2 h2 => ?_) fun _ _ h => ⟨h, Recounted.refl l⟩
      obtain ⟨hc2, hf2, hp2, hs2⟩ := h2
      refine ⟨Keeps.of_unstored hns hc2 hf2 fun _ => hp2.sound, Recounted.refl l, hs2,
        fun c h => ?_, fun _ => hns⟩
      cases h

/-- Once the live file is open as `i`, reconciling the backup settles the log at a checkpoint
that is stored. -/
theorem reconcile_settles (hlive : fileName live = some N) (hi : Intact live (m, l))
    {c : Checkpoint} (hc : Stored (LogPaths.forLog live) c m.disk) {i : Nat} {m1 m2 : Machine}
    (hk1 : Keeps (LogPaths.forLog live) [] m m1)
    (hi1 : m1.disk.nodeAt (m1.disk.locate (LogPaths.forLog live).live) = some (.file i))
    (hk2 : Keeps (LogPaths.forLog live) [((LogPaths.forLog live).live, i)] m1 m2) :
    wp (l.backup.reconcile (LogPaths.forLog live).live c.position)
      (fun b m' => Settled live (m', { l with backup := b, file := some i, checkpoint := c }))
      (fun _ m' => Keeps (LogPaths.forLog live) [] m m') m2 := by
  have hA := forLog_apart hlive
  have hb : ∀ d : Disk, d.locate l.backup.path ≠ d.locate (LogPaths.forLog live).checkpoint :=
    fun d => by rw [hi.backup]; exact (hA.checkpoint_backup d).ne.symm
  have hp1 : Placed [((LogPaths.forLog live).live, i)] m1.disk :=
    (hk1.files hi.placed.nil).1.cons hi1
  have hc1 := (hk1.files hi.placed.nil).2 c hc
  refine wp_mono (Backup.reconcile_keeps l.backup hb _ _ m2) (fun b m3 h3 => ?_)
    fun _ m3 h3 => hk1.trans ((hk2.trans h3).of_cons hi1)
  obtain ⟨hk3, hpath, -, hmirror⟩ := h3
  have hk13 := hk2.trans hk3
  obtain ⟨hp3, hs3⟩ := hk13.files hp1
  have hh : Honest m3 := hi.honest.of_faults (hk13.faults.trans hk1.faults)
  refine ⟨⟨hh, fun n => ?_, hi.paths, hpath.trans hi.backup, ⟨hp3.sound, fun {p j} hj => ?_⟩⟩,
    hs3 c hc1⟩
  · rw [hk13.clock, hk1.clock]
    exact hi.clock n
  · -- the open files are the live file and the backup's mirror
    have hp : l.paths = LogPaths.forLog live := hi.paths
    simp only [DurableLog.opened, hp, List.mem_append, Option.mem_toList, Option.map_eq_some_iff,
      Option.some.injEq, Prod.mk.injEq] at hj
    rcases hj with ⟨_, rfl, rfl, rfl⟩ | ⟨k, hk, rfl, rfl⟩
    · exact hp3.named List.mem_cons_self
    · rw [hpath]
      exact hmirror k hk

/-- Opening at a stored checkpoint settles the log there; when it fails the files are kept and
the log is as it was. -/
theorem openAt_settles (hlive : fileName live = some N) (hi : Intact live (m, l))
    {c : Checkpoint} (hc : Stored (LogPaths.forLog live) c m.disk) (size : Nat) :
    wp (openAt (LogPaths.forLog live) c size)
      (fun _ s => Settled live s ∧ s.2.checkpoint = c ∧ s.2.lock = l.lock)
      (fun _ s => Keeps (LogPaths.forLog live) [] m s.1 ∧ s.2 = l) (m, l) := by
  have hA := forLog_apart hlive
  have hlive' : ∀ d : Disk, d.locate (LogPaths.forLog live).live ≠
      d.locate (LogPaths.forLog live).checkpoint := fun d => (hA.checkpoint_live d).ne.symm
  rw [openAt, wp_bind, wp_io]
  refine wp_mono (wp_and (Io.create_named _ false m) (Io.create_keeps hlive' false m))
    (fun i m1 h1 => ?_) fun _ _ h => ⟨h.2, rfl⟩
  obtain ⟨hi1, hk1⟩ := h1
  -- the live file is cut back to the checkpoint when it runs past it
  split
  · simp only [wp_bind, wp_io, wp_log, wp_wal, wp_update]
    refine (Io.setLength_keeps hlive' List.mem_cons_self _).wp (fun _ m2 h2 => ?_)
      fun _ _ h => ⟨hk1.trans (h.of_cons hi1), trivial⟩
    refine (Io.sync_keeps i).wp (fun _ m3 h3 => ?_)
      fun _ _ h => ⟨hk1.trans ((h2.trans h).of_cons hi1), trivial⟩
    exact wp_mono (reconcile_settles hlive hi hc hk1 hi1 (h2.trans h3))
      (fun _ _ h => ⟨h, trivial, trivial⟩) fun _ _ h => ⟨h, trivial⟩
  · simp only [wp_bind, wp_log, wp_wal, wp_update]
    exact wp_mono (reconcile_settles hlive hi hc hk1 hi1 (Keeps.refl _))
      (fun _ _ h => ⟨h, trivial, trivial⟩) fun _ _ h => ⟨h, trivial⟩

/-- A stored checkpoint that fits 64 bits is what the checkpoint file decodes to. -/
theorem Stored.decodes {paths : LogPaths} {d : Disk} {ck : Checkpoint}
    (hck : Stored paths ck d) (hpos : ck.position ≤ maxPosition) {i : Nat} {c : Checkpoint}
    (hi : d.nodeAt (d.locate paths.checkpoint) = some (.file i))
    (hdec : decodeText checkpointDecoder (d.bytesOf i) = .ok c) : c = ck := by
  obtain ⟨i', hi', hdec'⟩ := hck
  rw [hi] at hi'
  cases hi'
  rw [hdec' hpos] at hdec
  exact (Except.ok.inj hdec).symm

/-- Opening a log with nothing open. When it succeeds the log is settled, at the checkpoint stored
before whenever one that fits 64 bits was stored; when it fails the files are kept and the log has
nothing open. -/
theorem init_settles (hlive : fileName live = some N) (hi : Intact live (m, l))
    (hclosed : l.opened = []) :
    wp init
      (fun _ s => Settled live s ∧ s.2.lock = l.lock ∧
        ∀ ck, ck.position ≤ maxPosition → Stored (LogPaths.forLog live) ck m.disk →
          s.2.checkpoint = ck)
      (fun _ s => Keeps (LogPaths.forLog live) [] m s.1 ∧ l.Recounted s.2) (m, l) := by
  have hp : l.paths = LogPaths.forLog live := hi.paths
  simp only [init, wp_bind, wp_log, wp_wal, hp]
  refine wp_mono (loadCheckpoint_spec _ (hi.honest _)) (fun stored m1 h1 => ?_)
    fun _ _ h => ⟨Keeps.of_disk h.1 h.2.1 h.2.2, Recounted.refl l⟩
  obtain ⟨hc1, hf1, hd1, hsome, hnone⟩ := h1
  -- the live file's size is read without changing the disk
  simp only [fileLength, Wal.io, wp_onMachine_io]
  refine wp_mono (Io.look_spec _ m1) (fun size m2 h2 => ?_)
    fun _ _ h => ⟨Keeps.of_disk (h.1.trans hc1) (h.2.1.trans hf1) (h.2.2.1.trans hd1), Recounted.refl l⟩
  obtain ⟨hc2, hf2, hd2, -⟩ := h2
  have hm2 : m2.disk = m.disk := hd2.trans hd1
  have hk2 : Keeps (LogPaths.forLog live) [] m m2 := Keeps.of_disk (hc2.trans hc1) (hf2.trans hf1) hm2
  have hsome2 : ∀ c, stored = some c → Stored (LogPaths.forLog live) c m2.disk := by
    intro c hc
    obtain ⟨i, hi, hdec⟩ := hsome c hc
    rw [hm2]
    exact ⟨i, hi, fun _ => hdec⟩
  have hnone2 : stored = none → ∀ ck, Stored (LogPaths.forLog live) ck m2.disk →
      m2.disk.reach (LogPaths.forLog live).checkpoint = .error .notFound := by
    rw [hm2]
    exact hnone
  refine wp_mono (checkpointFor_settles hlive (hi.recount hclosed hk2 (Recounted.refl l)) hsome2
    hnone2 _) ?_ fun _ _ h => ⟨hk2.trans h.1, h.2⟩
  rintro r ⟨m3, l3⟩ ⟨hk3, hr3, hs3, hloaded, hfresh⟩
  -- the checkpoint chosen is the one stored before, when one was
  have hsame : ∀ ck, ck.position ≤ maxPosition → Stored (LogPaths.forLog live) ck m.disk →
      r.1 = ck := by
    intro ck hpos hck
    cases stored with
    | none => exact absurd (hm2 ▸ hck) (hfresh rfl ck)
    | some c =>
      obtain ⟨i, hi, hdec⟩ := hsome c rfl
      rw [hloaded c rfl]
      exact Stored.decodes hck hpos hi hdec
  refine wp_mono (openAt_settles hlive (hi.recount hclosed (hk2.trans hk3) hr3) hs3 _)
    (fun _ s h => ⟨h.1, h.2.2.trans (by rw [hr3]), fun ck hpos hck => ?_⟩)
    fun _ s h => ⟨(hk2.trans hk3).trans h.1, h.2 ▸ hr3⟩
  rw [h.2.1]
  exact hsame ck hpos hck

theorem dropFile_keeps {opened : List (Path × Nat)} {paths : LogPaths} :
    wp dropFile (fun _ s => Keeps paths opened m s.1) (fun _ _ => False) (m, l) := by
  simp only [dropFile, wp_bind, wp_log]
  split
  · simp only [wp_bind, wp_update, wp_tryCatch, wp_io, wp_pure]
    exact (Io.sync_keeps _).wp (fun _ _ h => h) fun _ _ h => h
  · exact Keeps.refl m

/-- Closing a log keeps the files: it syncs and lets go of handles and the lock. -/
theorem close_keeps {opened : List (Path × Nat)} {paths : LogPaths} :
    wp close (fun _ s => Keeps paths opened m s.1) (fun _ s => Keeps paths opened m s.1) (m, l) := by
  rw [close, wp_bind]
  refine wp_mono (dropFile_keeps : wp dropFile (fun _ s => Keeps paths opened m s.1) _ (m, l))
    ?_ fun _ _ h => h.elim
  rintro _ ⟨m1, l1⟩ h1
  simp only [wp_bind, wp_log, wp_wal, wp_update]
  refine (Backup.close_keeps l1.backup).wp (fun _ m2 h2 => ?_) fun _ _ h => h1.trans h
  simp only [dropLock, wp_bind, wp_log]
  split
  · simp only [wp_bind, wp_update, wp_wal]
    exact (LogLock.release_keeps _).wp (fun _ _ h => (h1.trans h2).trans h)
      fun _ _ h => (h1.trans h2).trans h
  · exact h1.trans h2

theorem makeParent_keeps {opened : List (Path × Nat)} {paths : LogPaths} (path : Path) :
    Stays (Keeps paths opened) (makeParent path) := by
  unfold makeParent
  split
  · split
    · exact Wal.io_keeps (Io.createDirAll_keeps _)
    · exact Stays.pure _
  · exact Stays.pure _

/-- Opening the log at `live` with its files, on a machine whose calls never report a missing
file, whose clock is valid and whose disk is sound. The log opened is settled, at the checkpoint
stored before whenever one that fits 64 bits was; a failed open keeps the files. -/
theorem openLocked_settles (hlive : fileName live = some N) (policy : Config.BackupPolicy)
    (hh : Honest m) (hclock : ∀ n, (m.clock n).Valid) (hsound : m.disk.Sound) :
    wp (openLocked (LogPaths.forLog live) policy)
      (fun l m' => Settled live (m', l) ∧ ∀ ck, ck.position ≤ maxPosition →
        Stored (LogPaths.forLog live) ck m.disk → l.checkpoint = ck)
      (fun _ m' => Keeps (LogPaths.forLog live) [] m m') m := by
  have hA := forLog_apart hlive
  have hplaced : Placed [] m.disk := ⟨hsound, fun h => absurd h List.not_mem_nil⟩
  rw [openLocked, wp_bind]
  refine (LogLock.acquire_keeps fun d => (hA.checkpoint_lock d).ne.symm).wp
    (fun lk m1 h1 => ?_) fun _ _ h => h
  simp only [wp_bind, Wal.io, wp_onMachine_io, Io.now, wp_get, wp_pure, wp_runOn]
  -- the fresh log holds the lock and nothing else
  have hi1 : Intact live (m1, ⟨LogPaths.forLog live, none,
      ⟨(LogPaths.forLog live).backup, policy, none⟩, Checkpoint.at 0 (m1.clock m1.calls), 0,
      some lk⟩) := by
    refine ⟨hh.of_faults h1.faults, fun n => ?_, rfl, rfl, (h1.files hplaced).1⟩
    rw [h1.clock]
    exact hclock n
  refine wp_mono (init_settles hlive hi1 rfl) ?_ ?_
  · rintro _ ⟨m2, l2⟩ h2
    exact ⟨h2.1, fun ck hpos hck => h2.2.2 ck hpos ((h1.files hplaced).2 ck hck)⟩
  · -- the failed open is closed again
    rintro _ ⟨m2, l2⟩ h2
    exact wp_mono close_keeps (fun _ _ h3 => (h1.trans h2.1).trans h3)
      fun _ _ h3 => (h1.trans h2.1).trans h3

/-- Opening the log at `live`, creating its directory first. -/
theorem openLog_settles (hlive : fileName live = some N) (policy : Config.BackupPolicy)
    (hh : Honest m) (hclock : ∀ n, (m.clock n).Valid) (hsound : m.disk.Sound) :
    wp (openLog live policy)
      (fun l m' => Settled live (m', l) ∧ ∀ ck, ck.position ≤ maxPosition →
        Stored (LogPaths.forLog live) ck m.disk → l.checkpoint = ck)
      (fun _ m' => Keeps (LogPaths.forLog live) [] m m') m := by
  have hplaced : Placed [] m.disk := ⟨hsound, fun h => absurd h List.not_mem_nil⟩
  rw [openLog, wp_bind]
  refine (makeParent_keeps live).wp (fun _ m1 h1 => ?_) fun _ _ h => h
  have hclock1 : ∀ n, (m1.clock n).Valid := fun n => by
    rw [h1.clock]
    exact hclock n
  exact wp_mono (openLocked_settles hlive policy (hh.of_faults h1.faults) hclock1 (h1.files hplaced).1.sound)
    (fun _ _ h2 => ⟨h2.1, fun ck hpos hck => h2.2 ck hpos ((h1.files hplaced).2 ck hck)⟩)
    fun _ _ h2 => h1.trans h2

end DurableLog

end Opening

end EntityLog.Log
