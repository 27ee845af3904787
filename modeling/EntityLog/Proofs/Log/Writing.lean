import EntityLog.Proofs.Log.Opening
/-!
# Writing keeps a log settled

A write leaves a settled log settled, whatever happens to it. An append that succeeds stores its
new checkpoint after the line reached the live file and the backup; one that fails leaves the
checkpoint stored before, and the recovery or the rollback after it keeps the files in place. So
the checkpoint a running log holds is the one stored on disk after every write
(`write_settles`).
-/

namespace EntityLog.Log

open EntityLog.Files Path

namespace Backup

variable {paths : LogPaths} {opened : List (Path × Nat)} (b : Backup)
  (hb : ∀ d : Disk, d.locate b.path ≠ d.locate paths.checkpoint)
  (hmirror : ∀ k, b.mirror = some k → (b.path, k) ∈ opened)
include hb hmirror

/-- Recording a line in a backup apart from the checkpoint, whose mirror is open, keeps the
files. -/
theorem record_keeps (live : Path) (line : ByteArray) :
    Stays (Keeps paths opened) (b.record live line) := by
  unfold record
  split
  · split
    · rename_i k hk
      exact Wal.io_keeps ((Io.append_keeps hb (hmirror k hk) _).bind
        fun _ => Io.sync_keeps k)
    · exact Stays.throw _
  · exact (Wal.io_keeps (Io.copy_keeps hb _)).bind fun _ => Stays.pure _

theorem rollback_keeps (position : Nat) : Stays (Keeps paths opened) (b.rollback position) := by
  unfold rollback
  refine Stays.tryCatch ?_ fun _ => Stays.pure _
  split
  · split
    · rename_i k hk
      exact Wal.io_keeps (Io.setLength_keeps hb (hmirror k hk) _)
    · exact Stays.pure _
  · refine Wal.io_keeps ((Io.size?_keeps _).bind fun size => ?_)
    split
    · split
      · exact Io.cut_keeps hb _
      · exact Stays.pure _
    · exact Stays.pure _

end Backup

section Writing

variable {live : Path} {N : String} {m : Machine} {l : DurableLog}

theorem Intact.live_opened (hi : Intact live (m, l)) {i : Nat} (hf : l.file = some i) :
    ((LogPaths.forLog live).live, i) ∈ l.opened := by
  have hp : l.paths = LogPaths.forLog live := hi.paths
  simp [DurableLog.opened, hf, hp]

theorem Intact.mirror_opened (hi : Intact live (m, l)) (k : Nat) (hk : l.backup.mirror = some k) :
    ((LogPaths.forLog live).backup, k) ∈ l.opened := by
  have hb : l.backup.path = (LogPaths.forLog live).backup := hi.backup
  simp [DurableLog.opened, hk, hb]

/-- A log with nothing open, settled at its checkpoint, is settled after a step that keeps its
files, whatever its count of recoveries becomes. -/
theorem Settled.recount (hi : Intact live (m, l)) (hclosed : l.opened = [])
    (hst : Stored (LogPaths.forLog live) l.checkpoint m.disk) {m' : Machine} {l' : DurableLog}
    (hk : Keeps (LogPaths.forLog live) [] m m') (hr : l.Recounted l') : Settled live (m', l') := by
  refine { hi.recount hclosed hk hr with stored := ?_ }
  rw [hr]
  exact (hk.files hi.placed.nil).2 _ hst

namespace DurableLog

theorem isCorrupted_keeps {paths : LogPaths} {opened : List (Path × Nat)} :
    wp isCorrupted (fun _ s => Keeps paths opened m s.1 ∧ s.2 = l) (fun _ _ => False) (m, l) := by
  simp only [isCorrupted, wp_bind, wp_log, wp_tryCatch, wp_io]
  refine (Io.size?_keeps _).wp (fun size m1 h1 => ?_) fun _ _ h => ⟨h, rfl⟩
  split <;> exact ⟨h1, rfl⟩

/-- Appending a line keeps a log settled: at the new checkpoint when the append succeeds, and at
the one before when it fails. -/
theorem appendLine_settles (hlive : fileName live = some N) (hs : Settled live (m, l))
    (line : ByteArray) :
    wp (appendLine line) (fun _ s => Settled live s) (fun _ s => Settled live s) (m, l) := by
  have hA := forLog_apart hlive
  have hlive' : ∀ d : Disk, d.locate (LogPaths.forLog live).live ≠
      d.locate (LogPaths.forLog live).checkpoint := fun d => (hA.checkpoint_live d).ne.symm
  have hb : ∀ d : Disk, d.locate l.backup.path ≠ d.locate (LogPaths.forLog live).checkpoint :=
    fun d => by rw [hs.backup]; exact (hA.checkpoint_backup d).ne.symm
  have hmirror : ∀ k, l.backup.mirror = some k → (l.backup.path, k) ∈ l.opened := fun k hk => by
    rw [hs.backup]
    exact hs.mirror_opened k hk
  cases hf : l.file with
  | none =>
    simp only [appendLine, wp_bind, wp_log, hf, wp_throw]
    exact hs
  | some i =>
    have hp : l.paths = LogPaths.forLog live := hs.paths
    simp only [appendLine, wp_bind, wp_log, hf, hp, wp_pure, wp_io, wp_wal]
    -- the line goes to the live file, then to the backup
    refine (Io.append_keeps hlive' (hs.live_opened hf) line).wp (fun _ m1 h1 => ?_)
      fun _ _ h => hs.keeps h
    refine (Io.sync_keeps i).wp (fun _ m2 h2 => ?_) fun _ _ h => hs.keeps (h1.trans h)
    have hk2 := h1.trans h2
    refine (Backup.record_keeps l.backup hb hmirror _ _).wp (fun _ m3 h3 => ?_)
      fun _ _ h => hs.keeps (hk2.trans h)
    have hk3 := hk2.trans h3
    have hs3 := hs.keeps hk3
    -- the new checkpoint is stamped and stored
    refine wp_mono (Io.now_spec m3) (fun now m4 h4 => ?_) fun _ _ h => h.elim
    obtain ⟨rfl, rfl⟩ := h4
    simp only [wp_update, wp_pure]
    refine wp_mono (storeCheckpoint_spec hlive (hs3.clock _) (fun hj d => hs.apart hlive hj d)
      hs3.placed) (fun _ m5 h5 => ?_) fun _ _ h => hs3.keeps h
    obtain ⟨hc5, hf5, hp5, hst5⟩ := h5
    refine ⟨⟨hs3.honest.of_faults hf5, fun n => ?_, hs.paths, hs.backup, hp5⟩, hst5⟩
    rw [hc5]
    exact hs3.clock n

/-- Rolling back never fails and keeps a log settled. -/
theorem rollback_settles (hlive : fileName live = some N) (hs : Settled live (m, l)) :
    wp rollback (fun _ s => Settled live s ∧ s.2 = l) (fun _ _ => False) (m, l) := by
  have hA := forLog_apart hlive
  have hb : ∀ d : Disk, d.locate l.backup.path ≠ d.locate (LogPaths.forLog live).checkpoint :=
    fun d => by rw [hs.backup]; exact (hA.checkpoint_backup d).ne.symm
  have hmirror : ∀ k, l.backup.mirror = some k → (l.backup.path, k) ∈ l.opened := fun k hk => by
    rw [hs.backup]
    exact hs.mirror_opened k hk
  -- the backup is cut back after the live file, and that never fails
  have hend : ∀ m1, Keeps (LogPaths.forLog live) l.opened m m1 →
      wp (l.backup.rollback l.checkpoint.position) (fun _ m' => Settled live (m', l))
        (fun _ _ => False) m1 := fun m1 h1 =>
    wp_mono (wp_and (Backup.rollback_keeps l.backup hb hmirror _ m1)
      (Backup.rollback_succeeds _ _ m1)) (fun _ _ h => hs.keeps (h1.trans h.1)) fun _ _ h => h.2
  simp only [rollback, wp_bind, wp_log]
  split
  · rename_i i hf
    simp only [wp_bind, wp_tryCatch, wp_io, wp_pure, wp_wal]
    have hlive' : ∀ d : Disk, d.locate (LogPaths.forLog live).live ≠
        d.locate (LogPaths.forLog live).checkpoint := fun d => (hA.checkpoint_live d).ne.symm
    -- the live file is cut back first, whether or not its cut fails
    exact (Io.setLength_keeps hlive' (hs.live_opened hf) _).wp
      (fun _ m1 h1 => wp_mono (hend m1 h1) (fun _ _ h => ⟨h, trivial⟩) fun _ _ h => h)
      fun _ m1 h1 => wp_mono (hend m1 h1) (fun _ _ h => ⟨h, trivial⟩) fun _ _ h => h
  · rw [wp_wal]
    exact wp_mono (hend m (Keeps.refl m)) (fun _ _ h => ⟨h, rfl⟩) fun _ _ h => h

/-- Recovering keeps a log settled: at the checkpoint it opens at when it succeeds, and at the
one before, with nothing open, when it fails. -/
theorem recover_settles (hlive : fileName live = some N) (hs : Settled live (m, l)) :
    wp recover (fun _ s => Settled live s) (fun _ s => Settled live s) (m, l) := by
  simp only [recover, wp_bind, wp_update, wp_log, wp_wal]
  refine wp_mono (wp_and (Backup.close_spec l.backup m)
    (Backup.close_keeps l.backup m : wp l.backup.close
      (fun _ m' => Keeps (LogPaths.forLog live) l.opened m m')
      (fun _ m' => Keeps (LogPaths.forLog live) l.opened m m') m))
    (fun b m1 h1 => ?_) fun _ _ h => h.1.elim
  obtain ⟨rfl, hk1⟩ := h1
  -- with both handles dropped the log has nothing open
  have hi1 : Intact live (m1, { l with file := none, backup := { l.backup with mirror := none } }) :=
    ⟨(hs.keeps hk1).honest, (hs.keeps hk1).clock, hs.paths, hs.backup,
      (hk1.files hs.placed).1.nil⟩
  have hst1 := (hk1.files hs.placed).2 _ hs.stored
  exact wp_mono (init_settles hlive hi1 rfl) (fun _ _ h => h.1)
    fun _ _ h => Settled.recount hi1 rfl hst1 h.1 h.2

/-- An append undone when it fails keeps a log settled. -/
theorem appendOrUndo_settles (hlive : fileName live = some N) (hs : Settled live (m, l))
    (line : ByteArray) :
    wp (appendOrUndo line) (fun _ s => Settled live s) (fun _ s => Settled live s) (m, l) := by
  rw [appendOrUndo, wp_tryCatch]
  refine wp_mono (appendLine_settles hlive hs line) (fun _ _ h => h) ?_
  rintro e ⟨m1, l1⟩ hs1
  rw [wp_bind]
  refine wp_mono (isCorrupted_keeps : wp isCorrupted
      (fun _ s => Keeps (LogPaths.forLog live) l1.opened m1 s.1 ∧ s.2 = l1) _ (m1, l1))
    ?_ fun _ _ h => h.elim
  rintro corrupted ⟨m2, l2⟩ ⟨hk2, rfl⟩
  have hs2 := hs1.keeps hk2
  split
  · rw [wp_bind, wp_tryCatch]
    exact wp_mono (recover_settles hlive hs2) (fun _ _ h => h) fun _ _ h => h
  · rw [wp_bind]
    exact wp_mono (rollback_settles hlive hs2) (fun _ _ h => h.1) fun _ _ h => h.elim

/-- Writing a record keeps a log settled, whether the write succeeds or fails. -/
theorem write_settles (hlive : fileName live = some N) (hs : Settled live (m, l))
    (r : Record.ChangeRecord) :
    wp (write r) (fun _ s => Settled live s) (fun _ s => Settled live s) (m, l) := by
  simp only [write, wp_bind, wp_log]
  split
  · rw [wp_bind, wp_throw]
    exact hs
  · rw [wp_bind]
    refine wp_mono (isCorrupted_keeps : wp isCorrupted
        (fun _ s => Keeps (LogPaths.forLog live) l.opened m s.1 ∧ s.2 = l) _ (m, l))
      ?_ fun _ _ h => h.elim
    rintro corrupted ⟨m1, l1⟩ ⟨hk1, rfl⟩
    have hs1 := hs.keeps hk1
    split
    · rw [wp_bind]
      exact wp_mono (recover_settles hlive hs1) (fun _ _ h => appendOrUndo_settles hlive h _)
        fun _ _ h => h
    · exact appendOrUndo_settles hlive hs1 _

end DurableLog

end Writing

end EntityLog.Log
