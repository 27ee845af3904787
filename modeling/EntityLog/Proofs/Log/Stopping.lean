import EntityLog.Proofs.Files.Crash
/-!
# Log computations across crashes

The log's computations run on the machine and the log beside it. A walk of a machine computation
is a walk of it run on the machine and the log (`Walk.wal`), and a walk of a log computation is a
walk of it run on the machine alone (`Walk.runOn`); reading and changing the log make no call.

Once the calls stop, the log's computations only go on to fail, and stay idle: checking whether
the live file is damaged says it is, since its size cannot be read, so a write turns to
recovering; recovering, like opening, fails at loading the checkpoint; and closing lets go of
everything without touching a file.
-/

namespace EntityLog.Log

open EntityLog.Files EntityLog.Files.Carries EntityLog.Record

variable {α : Type}

/-! ## The machine and the log -/

section Pairs

variable {m m' : Machine} {l l' : DurableLog}

@[simp] theorem calls_pair : calls (m, l) = m.calls := rfl

@[simp] theorem disk_pair : disk (m, l) = m.disk := rfl

@[simp] theorem stop_pair (k : Nat) : stop k (m, l) = (stop k m, l) := rfl

theorem idle_pair : Idle (m, l) (m', l') ↔ Idle m m' := Iff.rfl

end Pairs

section Lifts

variable {m : Machine} {l : DurableLog} {Q : α → Machine × DurableLog → Prop}
  {E : WalError → Machine × DurableLog → Prop}

/-- A machine computation run beside the log crashes as it does on the machine. -/
theorem Walk.wal {C : Except WalError α → Disk → Disk → Prop} {x : Wal α}
    (h : Walk x m C (fun a m' => Q a (m', l)) (fun e m' => E e (m', l))) :
    Walk (LogIo.wal x) (m, l) C Q E :=
  h.map (fun r _ => r) (fun _ _ _ => rfl) (fun m' => (m', l)) (fun _ _ => rfl) (fun _ => rfl)
    (run_wal x) (fun _ => run_wal x) (fun _ _ _ _ h => h) (fun hw => by rw [wp_wal]; exact hw)

theorem Walk.logIo {C : Except WalError α → Disk → Disk → Prop} {x : Io α}
    (h : Walk x m (fun r D D' => C (r.mapError .io) D D') (fun a m' => Q a (m', l))
      (fun e m' => E (.io e) (m', l))) :
    Walk (LogIo.io x) (m, l) C Q E :=
  Walk.wal (Walk.io h)

theorem Walk.log {C : Except WalError DurableLog → Disk → Disk → Prop}
    {Q : DurableLog → Machine × DurableLog → Prop} (h : Q l (m, l)) :
    Walk LogIo.log (m, l) C Q E :=
  .of_steps rfl (fun _ => rfl) rfl (.refl _) h

theorem Walk.update {C : Except WalError Unit → Disk → Disk → Prop}
    {Q : Unit → Machine × DurableLog → Prop} {f : DurableLog → DurableLog} (h : Q () (m, f l)) :
    Walk (LogIo.update f) (m, l) C Q E :=
  .of_steps rfl (fun _ => rfl) rfl (.refl _) h

/-- A system computation whose crashes fail, run beside the log. -/
theorem Walk.logIoCrashes {Good : Disk → Prop} {x : Io α}
    (h : Walk x m (Crashes Good) (fun a m' => Q a (m', l)) (fun e m' => E (.io e) (m', l))) :
    Walk (LogIo.io x) (m, l) (Crashes Good) Q E :=
  Walk.wal (Walk.ioCrashes h)

/-- Reading the log makes no call: what follows is walked from the same state. -/
theorem Walk.logThen {β : Type} {C : Except WalError β → Disk → Disk → Prop}
    {Q : β → Machine × DurableLog → Prop} {f : DurableLog → LogIo β}
    (h : Walk (f l) (m, l) C Q E) : Walk (LogIo.log >>= f) (m, l) C Q E :=
  Walk.bind (Walk.log (C := fun _ _ _ => False) h) fun _ _ _ h => h.elim

theorem Walk.updateThen {β : Type} {C : Except WalError β → Disk → Disk → Prop}
    {Q : β → Machine × DurableLog → Prop} {f : DurableLog → DurableLog} {g : Unit → LogIo β}
    (h : Walk (g ()) (m, f l) C Q E) : Walk (LogIo.update f >>= g) (m, l) C Q E :=
  Walk.bind (Walk.update (C := fun _ _ _ => False) h) fun _ _ _ h => h.elim

/-- Reading the clock makes no call. -/
theorem Walk.now {C : Except IoFault Time.Instant → Disk → Disk → Prop}
    {Q : Time.Instant → Machine → Prop} {E : IoFault → Machine → Prop}
    (h : Q (m.clock m.calls) m) : Walk Io.now m C Q E :=
  .of_steps rfl (fun _ => rfl) rfl (.refl _) h

/-- Reading the clock beside the log makes no call: what follows is walked from the same state. -/
theorem Walk.nowThen {β : Type} {C : Except WalError β → Disk → Disk → Prop}
    {Q : β → Machine × DurableLog → Prop} {f : Time.Instant → LogIo β}
    (h : Walk (f (m.clock m.calls)) (m, l) C Q E) : Walk (LogIo.io Io.now >>= f) (m, l) C Q E :=
  Walk.bind (Walk.logIo (C := fun _ _ _ => False) (Walk.now h)) fun _ _ _ h => h.elim

/-- A log computation run on the machine crashes as it does beside the log; its outcome, with the
log as left, is the value of the run. -/
theorem Walk.runOn {x : LogIo α}
    {C : Except WalError (Except WalError α × DurableLog) → Disk → Disk → Prop}
    {Q : Except WalError α × DurableLog → Machine → Prop} {E : WalError → Machine → Prop}
    (h : Walk x (m, l) (fun r D D' => ∀ l', C (.ok (r, l')) D D')
      (fun a s => Q (.ok a, s.2) s.1) (fun e s => Q (.error e, s.2) s.1)) :
    Walk (x.runOn l) m C Q E :=
  h.map (fun r t => .ok (r, t.2)) (fun _ _ _ => rfl) Prod.fst (fun _ _ => rfl) (fun _ => rfl)
    (run_runOn x) (fun _ => run_runOn x) (fun _ t _ _ h => h t.2)
    (fun hw => by rw [wp_runOn]; exact hw)

end Lifts

/-! ## Once the calls stop -/

section Stopped

variable {m : Machine} {l : DurableLog} (hm : Stopped m)
include hm

/-- Once the calls stop, loading the checkpoint fails: the file cannot be read. -/
theorem loadCheckpoint_stopped (p : Path) {Q : Option Checkpoint → Machine → Prop}
    {E : WalError → Machine → Prop} (hE : ∀ m', Idle m m' → E (.io .wouldBlock) m') :
    wp (loadCheckpoint p) Q E m := by
  simp only [loadCheckpoint, Wal.io, wp_bind, wp_tryCatch, wp_map, wp_onMachine_io, Io.read, Io.look]
  refine Io.call_stopped hm fun m' hm' => ?_
  exact hE m' hm'

theorem Backup.close_stopped (b : Backup) {Q : Backup → Machine → Prop}
    {E : WalError → Machine → Prop} (hQ : ∀ m', Idle m m' → Q { b with mirror := none } m') :
    wp b.close Q E m := by
  unfold Backup.close
  cases hk : b.mirror with
  | none => exact hQ m (Idle.refl hm)
  | some k =>
    simp only [wp_bind, wp_tryCatch, Wal.io, wp_onMachine_io, Io.sync, Io.change]
    refine Io.call_stopped hm fun m' hm' => ?_
    exact hQ m' hm'

theorem LogLock.release_stopped (lk : LogLock) {Q : Unit → Machine → Prop}
    {E : WalError → Machine → Prop} (hQ : ∀ m', Idle m m' → Q () m') : wp lk.release Q E m := by
  simp only [LogLock.release, forgetHeld, wp_bind, wp_tryCatch, Wal.io, wp_onMachine_io, Io.unlock,
    Io.change]
  refine Io.call_stopped hm fun m' hm' => ?_
  -- the failed unlock still lets go of the lock, and makes no call
  exact hQ _ ⟨fun k hk => hm'.1 k hk, hm'.2.trans (Disk.Later.unlock _ _)⟩

namespace DurableLog

variable {E : WalError → Machine × DurableLog → Prop}

/-- Once the calls stop, the live file's size cannot be read, so it counts as damaged. -/
theorem isCorrupted_stopped {Q : Bool → Machine × DurableLog → Prop}
    (hQ : ∀ m', Idle m m' → Q true (m', l)) : wp isCorrupted Q E (m, l) := by
  simp only [isCorrupted, wp_bind, wp_log, wp_tryCatch, wp_io, Io.size?, Io.look]
  refine Io.call_stopped hm fun m' hm' => ?_
  exact hQ m' hm'

theorem init_stopped {Q : Unit → Machine × DurableLog → Prop}
    (hE : ∀ e m', Idle m m' → E e (m', l)) : wp init Q E (m, l) := by
  simp only [init, wp_bind, wp_log, wp_wal]
  exact loadCheckpoint_stopped hm _ fun m' hm' => hE _ m' hm'

/-- Once the calls stop, recovering fails when it opens the log again. -/
theorem recover_stopped {Q : Unit → Machine × DurableLog → Prop}
    (hE : ∀ e m' l', Idle m m' → E e (m', l')) : wp recover Q E (m, l) := by
  simp only [recover, wp_bind, wp_update, wp_log, wp_wal]
  refine Backup.close_stopped hm _ fun m1 h1 => ?_
  exact init_stopped h1.1 fun e m2 h2 => hE e m2 _ (h1.trans h2)

/-- Once the calls stop, a write fails: the live file counts as damaged and recovering it fails. -/
theorem write_stopped (r : ChangeRecord) {Q : Checkpoint → Machine × DurableLog → Prop}
    (hE : ∀ e m' l', Idle m m' → E e (m', l')) : wp (write r) Q E (m, l) := by
  simp only [write, wp_bind, wp_log]
  split
  · exact hE _ _ _ (Idle.refl hm)
  · rw [wp_bind]
    refine isCorrupted_stopped hm fun m1 h1 => ?_
    rw [if_pos rfl, wp_bind]
    exact recover_stopped h1.1 fun e m2 l2 h2 => hE e m2 l2 (h1.trans h2)

theorem dropFile_stopped {Q : Unit → Machine × DurableLog → Prop}
    (hQ : ∀ m' l', Idle m m' → Q () (m', l')) : wp dropFile Q E (m, l) := by
  simp only [dropFile, wp_bind, wp_log]
  split
  · simp only [wp_bind, wp_update, wp_tryCatch, wp_io, Io.sync, Io.change]
    refine Io.call_stopped hm fun m' hm' => ?_
    exact hQ _ _ hm'
  · exact hQ _ _ (Idle.refl hm)

theorem dropLock_stopped {Q : Unit → Machine × DurableLog → Prop}
    (hQ : ∀ m' l', Idle m m' → Q () (m', l')) : wp dropLock Q E (m, l) := by
  simp only [dropLock, wp_bind, wp_log]
  split
  · simp only [wp_bind, wp_update, wp_wal]
    exact LogLock.release_stopped hm _ fun m' hm' => hQ _ _ hm'
  · exact hQ _ _ (Idle.refl hm)

/-- Once the calls stop, closing lets go of everything and touches no file. -/
theorem close_stopped {Q : Unit → Machine × DurableLog → Prop}
    (hQ : ∀ m' l', Idle m m' → Q () (m', l')) : wp close Q E (m, l) := by
  rw [close, wp_bind]
  refine dropFile_stopped hm fun m1 l1 h1 => ?_
  simp only [wp_bind, wp_log, wp_wal]
  refine Backup.close_stopped h1.1 _ fun m2 h2 => ?_
  rw [wp_update]
  exact dropLock_stopped h2.1 fun m3 l3 h3 => hQ m3 l3 ((h1.trans h2).trans h3)

end DurableLog

end Stopped

end EntityLog.Log
