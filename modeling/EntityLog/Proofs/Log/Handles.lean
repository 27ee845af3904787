import EntityLog.Proofs.Log.Outcomes
/-!
# When a write reports a closed log

A write answers `closed` when the log has no append handle for its live file. Besides closing,
the handle is dropped by a recovery, which opens the log again and so brings the handle back
unless the recovery fails; under the mirror policy the backup keeps an append handle of its own,
opened whenever the live handle is. This module proves that a log with its live handle never
answers `closed`: every other failure of a write is one of the file system, the checkpoint or the
backup, and a write that fails keeps the two handles in step.
-/

namespace EntityLog.Log

open EntityLog.Files EntityLog.Config EntityLog.Record

variable {α : Type}

/-- A machine computation of the log that never fails with `closed`. -/
def Wal.NeverClosed (x : Wal α) : Prop :=
  ∀ m, wp x (fun _ _ => True) (fun e _ => e ≠ .closed) m

theorem wp_of_forall {ε S : Type} {x : ExceptT ε (StateM S) α} {Q : α → S → Prop}
    {E : ε → S → Prop} {s : S} (hq : ∀ a s, Q a s) (he : ∀ e s, E e s) : wp x Q E s := by
  unfold wp
  split
  · exact hq _ _
  · exact he _ _

namespace Wal.NeverClosed

variable {x : Wal α} {Q : α → Machine → Prop} {E : WalError → Machine → Prop}

theorem wp (hx : x.NeverClosed) (m : Machine) (hq : ∀ a m, Q a m)
    (he : ∀ e m, e ≠ .closed → E e m) : Files.wp x Q E m :=
  wp_mono (hx m) (fun a m _ => hq a m) he

theorem io (y : Io α) : (Wal.io y).NeverClosed := by
  intro m
  simp only [Wal.io, wp_onMachine_io]
  exact wp_of_forall (fun _ _ => trivial) (fun _ _ => WalError.noConfusion)

end Wal.NeverClosed

theorem fileLength_neverClosed (p : Path) : (fileLength p).NeverClosed :=
  .io _

theorem storeCheckpoint_neverClosed (p : Path) (c : Checkpoint) :
    (storeCheckpoint p c).NeverClosed :=
  .io _

theorem loadCheckpoint_neverClosed (p : Path) : (loadCheckpoint p).NeverClosed := by
  intro m
  simp only [loadCheckpoint, Wal.io, wp_bind, wp_tryCatch, wp_map, wp_onMachine_io]
  apply wp_of_forall
  · intro bytes m'
    split
    · simp only [wp_pure]
    · simp only [wp_throw]
      exact WalError.noConfusion
  · intro e m'
    split
    · simp only [wp_pure]
    · simp only [wp_throw]
      exact WalError.noConfusion

namespace Backup

/-- A backup is ready to follow the live file: under the mirror policy its handle is open. -/
def Ready (b : Backup) : Prop := b.policy = .mirror → b.mirror.isSome

theorem present_neverClosed (b : Backup) : b.present.NeverClosed := .io _

theorem restoreInto_neverClosed (b : Backup) (live : Path) : (b.restoreInto live).NeverClosed := by
  intro m
  simp only [restoreInto, wp_bind]
  apply (present_neverClosed b).wp
  · intro present m'
    split
    · rw [wp_bind, wp_throw]
      exact WalError.noConfusion
    · exact (Wal.NeverClosed.io _) m'
  · exact fun _ _ he => he

/-- The end of a reconcile: the mirror handle is opened when the policy asks for one. -/
theorem reconcile_opensMirror (b : Backup) (m : Machine) :
    wp (if (b.policy == .mirror) = true then
        Wal.io (Io.openWrite b.path) >>= fun inode => pure { b with mirror := some inode }
      else pure { b with mirror := none })
      (fun b' _ => b'.Ready) (fun e _ => e ≠ .closed) m := by
  split
  · rw [wp_bind]
    apply (Wal.NeverClosed.io _).wp
    · intro inode _
      exact fun _ => rfl
    · exact fun _ _ he => he
  · rename_i hpolicy
    intro hmirror
    have hmirror : b.policy = .mirror := hmirror
    rw [hmirror] at hpolicy
    exact absurd hpolicy (by decide)

/-- Reconciling leaves the backup ready, whichever way the file had to be repaired. -/
theorem reconcile_ready (b : Backup) (live : Path) (position : Nat) (m : Machine) :
    wp (b.reconcile live position) (fun b' _ => b'.Ready) (fun e _ => e ≠ .closed) m := by
  simp only [reconcile, wp_bind]
  apply (fileLength_neverClosed _).wp
  · intro size m'
    -- the file is cut, copied or left alone; then the shared end runs
    split
    · split
      · split
        · rw [wp_bind]
          exact (Wal.NeverClosed.io _).wp _ (fun _ _ => reconcile_opensMirror _ _) fun _ _ he => he
        · rw [wp_bind]
          exact (Wal.NeverClosed.io _).wp _ (fun _ _ => reconcile_opensMirror _ _) fun _ _ he => he
      · rw [wp_bind]
        exact (Wal.NeverClosed.io _).wp _ (fun _ _ => reconcile_opensMirror _ _) fun _ _ he => he
    · exact reconcile_opensMirror _ _
  · exact fun _ _ he => he

/-- Refreshing a ready backup never fails as closed: only a mirror without its handle does. -/
theorem record_neverClosed {b : Backup} (hb : b.Ready) (live : Path) (line : ByteArray) :
    (b.record live line).NeverClosed := by
  unfold record
  split
  · rename_i hmirror
    split
    · exact .io _
    · rename_i hnone
      have := hb hmirror
      simp [hnone] at this
  · intro m
    rw [wp_bind]
    exact (Wal.NeverClosed.io _).wp _ (fun _ _ => trivial) fun _ _ he => he

theorem rollback_succeeds (b : Backup) (position : Nat) (m : Machine) :
    wp (b.rollback position) (fun _ _ => True) (fun _ _ => False) m := by
  unfold rollback
  rw [wp_tryCatch]
  exact wp_of_forall (fun _ _ => trivial) fun _ _ => by simp only [wp_pure]

/-- Closing lets go of the mirror handle and keeps the path and the policy. -/
theorem close_spec (b : Backup) (m : Machine) :
    wp b.close (fun b' _ => b' = { b with mirror := none }) (fun _ _ => False) m := by
  simp only [close]
  split
  · rw [wp_bind, wp_tryCatch]
    exact wp_of_forall (fun _ _ => rfl) fun _ _ => rfl
  · rfl

end Backup

namespace DurableLog

variable {m : Machine} {l : DurableLog}

/-- The live handle and the mirror handle are in step: while the live file is open, the backup is
ready to follow it. -/
def MirrorReady (l : DurableLog) : Prop := l.file.isSome → l.backup.Ready

theorem MirrorReady.of_closed (h : l.file = none) : l.MirrorReady := by
  intro hsome
  simp [h] at hsome

theorem isCorrupted_spec : wp isCorrupted (fun _ s => s.2 = l) (fun _ _ => False) (m, l) := by
  simp only [isCorrupted, wp_bind, wp_log, wp_tryCatch, wp_io]
  apply wp_of_forall
  · intro size m'
    split <;> rfl
  · intro _ _
    rfl

theorem restore_spec :
    wp restore (fun _ s => s.2 = { l with recoveries := l.recoveries + 1 })
      (fun e s => s.2 = l ∧ e ≠ .closed) (m, l) := by
  simp only [restore, wp_bind, wp_log, wp_wal]
  apply (Backup.present_neverClosed _).wp
  · intro present m'
    split
    · rw [wp_bind, wp_throw]
      exact ⟨rfl, WalError.noConfusion⟩
    · simp only [wp_bind, wp_io]
      apply wp_of_forall
      · intro aside m''
        split
        · simp only [wp_bind, wp_io, wp_wal, wp_update, wp_pure]
          refine wp_of_forall (fun _ _ => wp_of_forall (fun _ _ => ?_) ?_) ?_
          · exact (Backup.restoreInto_neverClosed _ _).wp _ (fun _ _ => trivial)
              fun _ _ he => ⟨trivial, he⟩
          all_goals exact fun _ _ => ⟨trivial, WalError.noConfusion⟩
        · simp only [wp_bind, wp_wal, wp_update, wp_pure]
          exact (Backup.restoreInto_neverClosed _ _).wp _ (fun _ _ => trivial)
            fun _ _ he => ⟨trivial, he⟩
      · intro _ _
        exact ⟨trivial, WalError.noConfusion⟩
  · intro e _ he
    exact ⟨trivial, he⟩

/-- Opening at a checkpoint keeps the handles in step. -/
theorem openAt_spec {paths : LogPaths} {cp : Checkpoint} {size : Nat} (hl : l.file = none) :
    wp (openAt paths cp size) (fun _ s => s.2.MirrorReady ∧ s.2.file.isSome)
      (fun e s => s.2.file = none ∧ e ≠ .closed) (m, l) := by
  rw [openAt, wp_bind, wp_io]
  refine wp_of_forall (fun inode m' => ?_) fun _ _ => ⟨hl, WalError.noConfusion⟩
  split
  · simp only [wp_bind, wp_io, wp_log, wp_wal, wp_update]
    refine wp_of_forall (fun _ _ => wp_of_forall (fun _ m'' => ?_) ?_) ?_
    · exact wp_mono (Backup.reconcile_ready _ _ _ _) (fun b _ hb => ⟨fun _ => hb, rfl⟩)
        fun _ _ he => ⟨hl, he⟩
    all_goals exact fun _ _ => ⟨hl, WalError.noConfusion⟩
  · simp only [wp_bind, wp_log, wp_wal, wp_update]
    exact wp_mono (Backup.reconcile_ready _ _ _ _) (fun b _ hb => ⟨fun _ => hb, rfl⟩)
      fun _ _ he => ⟨hl, he⟩

/-- Choosing the checkpoint to open at leaves the live handle closed and never fails as
closed. -/
theorem checkpointFor_spec {paths : LogPaths} {stored : Option Checkpoint} {size : Nat}
    (hl : l.file = none) :
    wp (checkpointFor paths stored size) (fun _ s => s.2.file = none)
      (fun e s => s.2.file = none ∧ e ≠ .closed) (m, l) := by
  unfold checkpointFor
  split
  · split
    · rw [wp_bind]
      refine wp_mono restore_spec (fun restored ⟨m', l'⟩ hl' => ?_) fun e s he =>
        ⟨by simp [he.1, hl], he.2⟩
      simp only at hl'
      subst hl'
      split
      · rw [wp_bind, wp_throw]
        exact ⟨hl, WalError.noConfusion⟩
      · exact hl
    · exact hl
  · rw [wp_bind, wp_io]
    refine wp_of_forall (fun now m' => ?_) fun _ _ => ⟨hl, WalError.noConfusion⟩
    rw [wp_bind, wp_wal]
    exact (storeCheckpoint_neverClosed _ _).wp _ (fun _ _ => hl) fun _ _ he => ⟨hl, he⟩

theorem init_spec (hl : l.file = none) :
    wp init (fun _ s => s.2.MirrorReady ∧ s.2.file.isSome) (fun e s => s.2.file = none ∧ e ≠ .closed)
      (m, l) := by
  simp only [init, wp_bind, wp_log, wp_wal]
  refine (loadCheckpoint_neverClosed _).wp _ (fun stored m' => ?_) fun _ _ he => ⟨hl, he⟩
  refine (fileLength_neverClosed _).wp _ (fun size m'' => ?_) fun _ _ he => ⟨hl, he⟩
  exact wp_mono (checkpointFor_spec hl) (fun _ ⟨_, _⟩ h => openAt_spec h) fun _ _ h => h

theorem recover_spec :
    wp recover (fun _ s => s.2.MirrorReady ∧ s.2.file.isSome)
      (fun e s => s.2.file = none ∧ e ≠ .closed) (m, l) := by
  simp only [recover, wp_bind, wp_update, wp_log, wp_wal]
  refine wp_mono (Backup.close_spec _ _) (fun b m' hb => ?_) fun _ _ h => h.elim
  exact init_spec rfl

theorem rollback_spec : wp rollback (fun _ s => s.2 = l) (fun _ _ => False) (m, l) := by
  simp only [rollback, wp_bind, wp_log]
  have hbackup := Backup.rollback_succeeds l.backup l.checkpoint.position
  split
  · simp only [wp_bind, wp_tryCatch, wp_io, wp_pure, wp_wal]
    refine wp_of_forall (fun _ m' => ?_) fun _ m' => ?_
    all_goals exact wp_mono (hbackup m') (fun _ _ _ => by simp) fun _ _ h => h
  · rw [wp_wal]
    exact wp_mono (hbackup m) (fun _ _ _ => rfl) fun _ _ h => h

theorem appendLine_spec (line : ByteArray) (hl : l.MirrorReady) (hf : l.file.isSome) :
    wp (appendLine line) (fun _ s => s.2.MirrorReady ∧ s.2.file.isSome)
      (fun e s => s.2 = l ∧ e ≠ .closed) (m, l) := by
  obtain ⟨inode, hinode⟩ := Option.isSome_iff_exists.mp hf
  have hrecord := Backup.record_neverClosed (hl hf) l.paths.live line
  simp only [appendLine, wp_bind, wp_log, hinode, wp_pure, wp_io, wp_wal]
  refine wp_of_forall (fun _ _ => wp_of_forall (fun _ m' => ?_) ?_) ?_
  · refine hrecord.wp _ (fun _ m'' => ?_) fun _ _ he => by simpa using he
    refine wp_of_forall (fun now m3 => ?_) fun _ _ => by simp
    exact (storeCheckpoint_neverClosed _ _).wp _ (fun _ _ => ⟨hl, hf⟩) fun _ _ he => by simpa using he
  all_goals exact fun _ _ => by simp

theorem write_of_closed (r : ChangeRecord) (hf : l.file = none) :
    (write r).run.run (m, l) = (.error .closed, (m, l)) := by
  have h : wp (write r) (fun _ _ => False) (fun e s => e = .closed ∧ s = (m, l)) (m, l) := by
    simp [write, hf]
  rcases wp_run h with ⟨_, _, _, h⟩ | ⟨e, s, hrun, rfl, rfl⟩
  · exact h.elim
  · exact hrun

/-- An append, undone when it fails: the live file is recovered when damaged and otherwise cut
back, and the append's own failure is reported. -/
theorem appendOrUndo_spec (line : ByteArray) (hl : l.MirrorReady) (hf : l.file.isSome) :
    wp (appendOrUndo line) (fun _ s => s.2.MirrorReady ∧ s.2.file.isSome)
      (fun e s => s.2.MirrorReady ∧ e ≠ .closed) (m, l) := by
  rw [appendOrUndo, wp_tryCatch]
  refine wp_mono (appendLine_spec line hl hf) (fun _ _ h => h) fun e ⟨m', l'⟩ ⟨hl', he⟩ => ?_
  simp only at hl'
  subst hl'
  rw [wp_bind]
  refine wp_mono isCorrupted_spec (fun corrupted ⟨m'', l''⟩ h => ?_) fun _ _ h => h.elim
  simp only at h
  subst h
  simp only
  split
  · rw [wp_bind, wp_tryCatch]
    exact wp_mono recover_spec (fun _ _ h => ⟨h.1, he⟩) fun _ _ h => ⟨.of_closed h.1, he⟩
  · rw [wp_bind]
    exact wp_mono rollback_spec (fun _ _ h => ⟨h ▸ hl, he⟩) fun _ _ h => h.elim

theorem write_spec (r : ChangeRecord) (hl : l.MirrorReady) (hf : l.file.isSome) :
    wp (write r) (fun _ s => s.2.MirrorReady ∧ s.2.file.isSome)
      (fun e s => s.2.MirrorReady ∧ e ≠ .closed) (m, l) := by
  simp only [write, wp_bind, wp_log]
  split
  · rename_i hnone
    rw [Option.isNone_iff_eq_none] at hnone
    simp [hnone] at hf
  · rw [wp_bind]
    refine wp_mono isCorrupted_spec (fun corrupted ⟨m', l'⟩ h => ?_) fun _ _ h => h.elim
    simp only at h
    subst h
    split
    · rw [wp_bind]
      refine wp_mono recover_spec (fun _ ⟨m'', l''⟩ ⟨hl'', hf''⟩ => ?_) fun e _ h => ⟨.of_closed h.1, h.2⟩
      exact appendOrUndo_spec _ hl'' hf''
    · exact appendOrUndo_spec _ hl hf

theorem openLocked_spec (paths : LogPaths) (policy : BackupPolicy) :
    wp (openLocked paths policy) (fun l _ => l.MirrorReady ∧ l.file.isSome) (fun _ _ => True) m := by
  rw [openLocked, wp_bind]
  refine wp_of_forall (fun lock m' => ?_) fun _ _ => trivial
  rw [wp_bind]
  refine wp_of_forall (fun now m'' => ?_) fun _ _ => trivial
  rw [wp_bind, wp_runOn]
  refine wp_mono (init_spec rfl) (fun _ s h => h) fun _ _ _ => ?_
  simp only [wp_bind]
  exact wp_of_forall (fun _ _ => trivial) fun _ _ => trivial

theorem openLog_spec (path : Path) (policy : BackupPolicy) :
    wp (openLog path policy) (fun l _ => l.MirrorReady ∧ l.file.isSome) (fun _ _ => True) m := by
  rw [openLog, wp_bind]
  exact wp_of_forall (fun _ _ => openLocked_spec _ _) fun _ _ => trivial

end DurableLog

end EntityLog.Log
