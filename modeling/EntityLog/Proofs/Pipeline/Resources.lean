import EntityLog.Proofs.Pipeline.Events
import EntityLog.Proofs.Log.Writing
/-!
# What a coordinator holds

Against the machine `m₀` it was made on, a stopped coordinator holds nothing: the process holds
the locks it held on `m₀`. Running or stopping, its log holds one lock more, taken since `m₀`
(`Owns`). Opening takes the lock only when it succeeds, a start whose threads cannot start closes
the log again, and closing gives the lock back, whatever calls fail on the way. On a machine whose
calls never report a missing file, the running log is moreover settled at its checkpoint, and a
stopped coordinator's disk keeps whatever checkpoint is stored (`Anchors`), so that the first
start that succeeds opens the log at it. Both need a sink whose saves leave the log's lock and
files alone (`SinkApart`); the threads touch the machine only through the sink.
-/

namespace EntityLog.Pipeline

open EntityLog.Files EntityLog.Record EntityLog.Log EntityLog.Config

/-! ## Sinks that leave the log alone -/

/-- A step of the machine that leaves the log at `paths` alone: the locks are as they were, and
the log's files are kept, whatever files are open. -/
structure LeavesLog (paths : LogPaths) (m m' : Machine) : Prop where
  steady : m.Steady m'
  keeps : ∀ opened, Keeps paths opened m m'

theorem LeavesLog.refl {paths : LogPaths} (m : Machine) : LeavesLog paths m m :=
  ⟨Machine.Steady.refl m, fun _ => Keeps.refl m⟩

theorem LeavesLog.stored {paths : LogPaths} {m m' : Machine} (h : LeavesLog paths m m')
    (hs : m.disk.Sound) {ck : Checkpoint} (hck : Stored paths ck m.disk) :
    Stored paths ck m'.disk :=
  ((h.keeps []).files ⟨hs, fun hp => by cases hp⟩).2 ck hck

/-- Every save of the sink, from any world, leaves the log at `paths` alone. -/
def SinkApart {σ : Type} (paths : LogPaths) (save : List ChangeRecord → World σ SaveOutcome) :
    Prop :=
  ∀ batch w, LeavesLog paths w.1 ((save batch).run w).2.1

/-- A sink that leaves the machine as it was leaves every log alone. -/
theorem SinkApart.of_machine {σ : Type} {paths : LogPaths}
    {save : List ChangeRecord → World σ SaveOutcome}
    (h : ∀ batch w, ((save batch).run w).2.1 = w.1) : SinkApart paths save := by
  intro batch w
  rw [h batch w]
  exact LeavesLog.refl w.1

section Frames

variable {n : Nat} {S : Type} (save : List ChangeRecord → StateM S SaveOutcome)

theorem Processor.persist_world (p : Processor) (batch : List ChangeRecord) (w : S) :
    ((p.persist save batch).run w).2 = w ∨
      ((p.persist save batch).run w).2 = ((save batch).run w).2 := by
  unfold Processor.persist
  split
  · exact .inl rfl
  · exact .inr rfl

/-- A thread's step leaves the world as it was, or as one save of the sink leaves it. -/
theorem Pool.step_world (P : Pool n) (t : Pool.Thread n) (w : S) :
    ((P.step save t).run w).2 = w ∨
      ∃ batch, ((P.step save t).run w).2 = ((save batch).run w).2 := by
  have hpersist : ∀ (p : Processor) (batch : List ChangeRecord),
      ((p.persist save batch).run w).2 = w ∨
        ∃ batch', ((p.persist save batch).run w).2 = ((save batch').run w).2 :=
    fun p batch => (Processor.persist_world save p batch w).imp_right fun h => ⟨batch, h⟩
  cases t with
  | worker i =>
    simp only [Pool.step, Pool.workerStep]
    split
    · exact .inl rfl
    · exact .inl rfl
    · exact .inl rfl
    · exact hpersist _ _
    · exact .inl rfl
  | flusher =>
    simp only [Pool.step, Pool.flusherStep]
    split
    · exact .inl rfl
    · exact .inl rfl
    · exact hpersist _ _
    · exact .inl rfl
  | caller =>
    simp only [Pool.step, Pool.callerStep]
    split
    · exact .inl rfl
    · exact .inl rfl
    · exact .inl rfl
    · exact .inl rfl
    · exact .inl rfl
    · exact .inl rfl
    · exact hpersist _ _
    · exact .inl rfl
  | producer r => exact .inl rfl

end Frames

namespace Coordinator

variable {n : Nat} {σ : Type} {save : List ChangeRecord → World σ SaveOutcome}
  {m₀ : Machine} {c c' : Coordinator n} {w w' : Machine × σ}

theorem stepThread_leaves {paths : LogPaths} (hsave : SinkApart paths save) (g : Nat)
    (P : Pool n) (t : Pool.Thread n) (w : Machine × σ) :
    LeavesLog paths w.1 (c.stepThread save g P t w).2.1 := by
  rcases Pool.step_world save (P.lend c.recorder) t w with h | ⟨batch, h⟩
  · show LeavesLog paths w.1 (((P.lend c.recorder).step save t).run w).2.1
    rw [h]
    exact LeavesLog.refl w.1
  · show LeavesLog paths w.1 (((P.lend c.recorder).step save t).run w).2.1
    rw [h]
    exact hsave batch w

theorem spawnAll_cons (name : String) (rest : List String) (m : Machine) :
    (spawnAll (name :: rest)).run m =
      match Io.spawn.run.run m with
      | (.error e, m') => (.error (name, e), m')
      | (.ok (), m') => (spawnAll rest).run m' := by
  simp only [spawnAll, StateT.run_bind]
  rcases Io.spawn.run.run m with ⟨r, m'⟩
  cases r <;> rfl

theorem spawn_machine (m : Machine) :
    (Io.spawn.run.run m).2 = { m with spawned := m.spawned + 1 } := by
  have h : wp Io.spawn (fun _ m' => m' = { m with spawned := m.spawned + 1 })
      (fun _ m' => m' = { m with spawned := m.spawned + 1 }) m := by
    simp only [Io.spawn, wp_bind, wp_get, wp_set]
    split <;> rfl
  exact wp_state h (fun _ _ h => h) fun _ _ h => h

/-- Starting threads touches nothing of the machine but the count of threads started. -/
theorem spawnAll_machine : ∀ (names : List String) (m : Machine),
    ((spawnAll names).run m).2.disk = m.disk ∧ ((spawnAll names).run m).2.held = m.held ∧
      ((spawnAll names).run m).2.faults = m.faults ∧ ((spawnAll names).run m).2.clock = m.clock
  | [], _ => ⟨rfl, rfl, rfl, rfl⟩
  | name :: rest, m => by
    rcases hspawn : Io.spawn.run.run m with ⟨r, m'⟩
    have hm' : m' = { m with spawned := m.spawned + 1 } := by rw [← spawn_machine m, hspawn]
    rw [spawnAll_cons, hspawn]
    subst hm'
    cases r with
    | error e => exact ⟨rfl, rfl, rfl, rfl⟩
    | ok u => exact spawnAll_machine rest _

theorem spawnAll_steady (names : List String) (m : Machine) :
    m.Steady ((spawnAll names).run m).2 := by
  obtain ⟨hd, hh, hf, hc⟩ := spawnAll_machine names m
  exact ⟨hh, hf, hc, hd ▸ Disk.Grows.refl _⟩

theorem spawnAll_keeps (paths : LogPaths) (opened : List (Path × Nat)) (names : List String)
    (m : Machine) : Keeps paths opened m ((spawnAll names).run m).2 := by
  obtain ⟨hd, -, hf, hc⟩ := spawnAll_machine names m
  exact Keeps.of_disk hc hf hd

theorem runLog_run {α : Type} (x : LogIo α) (log : DurableLog) (m : Machine) :
    (DurableLog.runLog x log).run m =
      (((x.run.run (m, log)).1, (x.run.run (m, log)).2.2), (x.run.run (m, log)).2.1) := rfl

/-! ## The locks -/

/-- The locks a coordinator holds on the machine `m`, against the machine `m₀` it was made on:
stopped, those of `m₀`; running or stopping, one more, its log's, taken since `m₀`. -/
def Owns (m₀ : Machine) (c : Coordinator n) (m : Machine) : Prop :=
  match c.active with
  | none => m₀.Steady m
  | some a => ∃ lk, a.log.lock = some lk ∧ Acquired m₀ m lk

variable {m m' : Machine}

theorem owns_of_stopped (h : c.active = none) : c.Owns m₀ m ↔ m₀.Steady m := by
  rw [Owns, h]

theorem owns_of_active {a : Active n} (h : c.active = some a) :
    c.Owns m₀ m ↔ ∃ lk, a.log.lock = some lk ∧ Acquired m₀ m lk := by
  rw [Owns, h]

theorem owns_new (config : PipelineConfig) (recorder : Recorder) (m₀ : Machine) :
    (new config recorder).Owns m₀ m₀ :=
  (owns_of_stopped rfl).2 (Machine.Steady.refl m₀)

theorem Owns.of_logs (h : c.Owns m₀ m) (hlogs : c'.active.map (·.log) = c.active.map (·.log)) :
    c'.Owns m₀ m := by
  cases ha : c.active with
  | none =>
    have ha' : c'.active = none := by simpa [ha] using hlogs
    exact (owns_of_stopped ha').2 ((owns_of_stopped ha).1 h)
  | some a =>
    obtain ⟨a', ha', hlog⟩ : ∃ a', c'.active = some a' ∧ a'.log = a.log := by simpa [ha] using hlogs
    rw [owns_of_active ha', hlog]
    exact (owns_of_active ha).1 h

theorem Owns.steady (h : c.Owns m₀ m) (hs : m.Steady m') : c.Owns m₀ m' := by
  cases ha : c.active with
  | none => exact (owns_of_stopped ha).2 (((owns_of_stopped ha).1 h).trans hs)
  | some a =>
    obtain ⟨lk, hlk, hacq⟩ := (owns_of_active ha).1 h
    exact (owns_of_active ha).2 ⟨lk, hlk, hacq.steady hs⟩

/-- Whatever a coordinator holds, the machine keeps the fault plan, the clock and the tokens of
`m₀`. -/
theorem Owns.machine (h : c.Owns m₀ m) (htok : TokensBelow m₀) :
    m.faults = m₀.faults ∧ m.clock = m₀.clock ∧ TokensBelow m := by
  cases ha : c.active with
  | none =>
    have hs := (owns_of_stopped ha).1 h
    exact ⟨hs.faults, hs.clock, htok.of_steady hs⟩
  | some a =>
    obtain ⟨lk, -, hacq⟩ := (owns_of_active ha).1 h
    exact ⟨hacq.faults, hacq.clock, htok.of_acquired hacq⟩

/-- A running or stopping coordinator's process holds its log's lock, with its advisory lock on
the disk. -/
theorem Owns.lock_held {a : Active n} (h : c.Owns m₀ m) (ha : c.active = some a) :
    ∃ lk, a.log.lock = some lk ∧ lk.key ∈ m.held ∧ (lk.inode, lk.token) ∈ m.disk.locks := by
  obtain ⟨lk, hlk, hacq⟩ := (owns_of_active ha).1 h
  refine ⟨lk, hlk, ?_, ?_⟩
  · rw [hacq.held]
    exact List.mem_append_right _ (List.mem_singleton_self _)
  · rw [hacq.locks]
    exact List.mem_append_right _ (List.mem_singleton_self _)

theorem Owns.stepThread {paths : LogPaths} (hsave : SinkApart paths save) (h : c.Owns m₀ w.1)
    (g : Nat) (P : Pool n) (t : Pool.Thread n) :
    (c.stepThread save g P t w).1.Owns m₀ (c.stepThread save g P t w).2.1 :=
  (h.steady (stepThread_leaves hsave g P t w).steady).of_logs (withPool_log g _)

/-- A start keeps what a coordinator holds, whatever calls fail: an open that fails leaves the
locks as they were, threads that cannot start see the log closed again, and a start that succeeds
holds the lock the open took. -/
theorem Owns.start (htok : TokensBelow m₀) (h : c.Owns m₀ w.1) {r : Except LifecycleError Unit}
    (hrun : ((start (σ := σ)).run c).run w = ((r, c'), w')) : c'.Owns m₀ w'.1 := by
  rcases start_cases hrun with ⟨-, -, hc, hw⟩ | ⟨-, -, -, -, hc, hw⟩ |
    ⟨hstop, -, opened, m1, hopen, hcases⟩
  · rw [hc, hw]
    exact h
  · rw [hc, hw]
    exact h
  have hsteady := (owns_of_stopped hstop).1 h
  have hspec := DurableLog.openLog_owns c.config.walPath c.config.backup
    (htok.of_steady hsteady)
  rcases hcases with ⟨e, rfl, -, hc, hw⟩ |
    ⟨log, spawned, m2, rfl, hspawn, ⟨-, -, -, -, hc, hw⟩ | ⟨-, -, hw, hc⟩⟩
  · have h1 : w.1.Steady m1 := wp_error_of_run (e := e) hspec hopen
    rw [hc, hw]
    exact (owns_of_stopped hstop).2 (hsteady.trans h1)
  · -- the log is closed again, which gives its lock back
    obtain ⟨lk, hlk, hacq⟩ := wp_ok_of_run hspec hopen
    have hm2 : m1.Steady m2 := by
      have := spawnAll_steady (threadNames c.config.workerThreads) m1
      rwa [hspawn] at this
    have hclose : w.1.Steady (DurableLog.close.run.run (m2, log)).2.1 :=
      wp_state (DurableLog.close_releases hlk (hacq.steady hm2)) (fun _ _ h => h.1)
        fun _ _ h => h.elim
    rw [hc, hw]
    exact (owns_of_stopped hstop).2 (hsteady.trans hclose)
  · obtain ⟨lk, hlk, hacq⟩ := wp_ok_of_run hspec hopen
    have hm2 : m1.Steady m2 := by
      have := spawnAll_steady (threadNames c.config.workerThreads) m1
      rwa [hspawn] at this
    rw [hc, hw]
    exact (owns_of_active rfl).2 ⟨lk, hlk, Acquired.of_steady hsteady (hacq.steady hm2)⟩

theorem Owns.write (h : c.Owns m₀ w.1) {r : ChangeRecord} {x : Writing}
    (hrun : ((write (σ := σ) r).run c).run w = ((x, c'), w')) : c'.Owns m₀ w'.1 := by
  rcases write_cases hrun with ⟨-, -, rfl, rfl⟩ | ⟨-, -, -, rfl, rfl⟩ |
    ⟨-, a, res, m1, log, ha, hlog, rfl, rfl, -⟩
  · exact h
  · exact h
  · have hsteady : LogSteady (w.1, a.log) (m1, log) := by
      have := wp_state (s := (w.1, a.log)) (DurableLog.write_steady r (w.1, a.log))
        (P := LogSteady (w.1, a.log)) (fun _ _ h => h) fun _ _ h => h
      rwa [hlog] at this
    obtain ⟨lk, hlk, hacq⟩ := (owns_of_active ha).1 h
    exact (owns_of_active rfl).2 ⟨lk, hsteady.lock.trans hlk, hacq.steady hsteady.machine⟩

/-- The end of a stop closes the log, which gives its lock back. -/
theorem Owns.close {a : Active n} (h : c.Owns m₀ w.1) (ha : c.active = some a) :
    m₀.Steady ((DurableLog.runLog DurableLog.close a.log).run w.1).2 := by
  obtain ⟨lk, hlk, hacq⟩ := (owns_of_active ha).1 h
  show m₀.Steady (DurableLog.close.run.run (w.1, a.log)).2.1
  exact wp_state (DurableLog.close_releases hlk hacq) (fun _ _ h => h.1) fun _ _ h => h.elim

/-! ## The checkpoint -/

/-- What a coordinator keeps of its log's files: stopped, a sound disk; running or stopping, a log
at the configured path, which names a file, settled at its checkpoint. -/
def Anchors (c : Coordinator n) (m : Machine) : Prop :=
  match c.active with
  | none => m.disk.Sound
  | some a => (∃ N, Path.fileName c.config.walPath = some N) ∧
      Log.Settled c.config.walPath (m, a.log)

theorem anchors_of_stopped (h : c.active = none) : c.Anchors m ↔ m.disk.Sound := by
  rw [Anchors, h]

theorem anchors_of_active {a : Active n} (h : c.active = some a) :
    c.Anchors m ↔ (∃ N, Path.fileName c.config.walPath = some N) ∧
      Log.Settled c.config.walPath (m, a.log) := by
  rw [Anchors, h]

theorem Anchors.of_logs (h : c.Anchors m) (hconfig : c'.config = c.config)
    (hlogs : c'.active.map (·.log) = c.active.map (·.log)) : c'.Anchors m := by
  cases ha : c.active with
  | none =>
    have ha' : c'.active = none := by simpa [ha] using hlogs
    exact (anchors_of_stopped ha').2 ((anchors_of_stopped ha).1 h)
  | some a =>
    obtain ⟨a', ha', hlog⟩ : ∃ a', c'.active = some a' ∧ a'.log = a.log := by simpa [ha] using hlogs
    rw [anchors_of_active ha', hlog, hconfig]
    exact (anchors_of_active ha).1 h

theorem Anchors.leaves (h : c.Anchors m)
    (hl : LeavesLog (LogPaths.forLog c.config.walPath) m m') : c.Anchors m' := by
  cases ha : c.active with
  | none =>
    have hs := (anchors_of_stopped ha).1 h
    exact (anchors_of_stopped ha).2 ((hl.keeps []).files ⟨hs, nofun⟩).1.sound
  | some a =>
    obtain ⟨hN, hs⟩ := (anchors_of_active ha).1 h
    exact (anchors_of_active ha).2 ⟨hN, hs.keeps (hl.keeps _)⟩

theorem Anchors.stepThread (hsave : SinkApart (LogPaths.forLog c.config.walPath) save)
    (h : c.Anchors w.1) (g : Nat) (P : Pool n) (t : Pool.Thread n) :
    (c.stepThread save g P t w).1.Anchors (c.stepThread save g P t w).2.1 :=
  (h.leaves (stepThread_leaves hsave g P t w)).of_logs (withPool_config g _) (withPool_log g _)

/-- A configuration that passes its checks names a file for its log. -/
theorem walPath_named_of_validate {config : PipelineConfig}
    (h : config.validate = .ok ()) : ∃ N, Path.fileName config.walPath = some N := by
  cases hname : Path.fileName config.walPath with
  | none =>
    have hnone : (Path.fileName config.walPath).isNone = true := by rw [hname]; rfl
    unfold PipelineConfig.validate at h
    simp only [hnone, if_true] at h
    split_ifs at h
  | some N => exact ⟨N, rfl⟩

/-- On a machine whose calls never report a missing file and whose clock gives valid instants, a
start keeps what a coordinator keeps of its log's files, and a start that succeeds opens the log
at the checkpoint stored before, when one that fits 64 bits was. -/
theorem Anchors.start (hh : Honest w.1) (hclock : ∀ t, (w.1.clock t).Valid) (h : c.Anchors w.1)
    {r : Except LifecycleError Unit} (hrun : ((start (σ := σ)).run c).run w = ((r, c'), w')) :
    c'.Anchors w'.1 ∧ ∀ ck, c.active = none → ck.position ≤ maxPosition →
      Stored (LogPaths.forLog c.config.walPath) ck w.1.disk →
      Stored (LogPaths.forLog c.config.walPath) ck w'.1.disk ∧
        (r = .ok () → c'.checkpoint = some ck) := by
  rcases start_cases hrun with ⟨hrunning, -, hc, hw⟩ | ⟨-, e, -, hr, hc, hw⟩ |
    ⟨hstop, hvalid, opened, m1, hopen, hcases⟩
  · refine ⟨hc ▸ hw ▸ h, fun ck hstop => ?_⟩
    simp [hstop] at hrunning
  · rw [hw]
    refine ⟨hc ▸ h, fun ck _ _ hck => ⟨hck, fun hok => ?_⟩⟩
    rw [hr] at hok
    cases hok
  obtain ⟨N, hN⟩ := walPath_named_of_validate hvalid
  have hsound := (anchors_of_stopped hstop).1 h
  have hspec := DurableLog.openLog_settles hN c.config.backup hh hclock hsound
  rcases hcases with ⟨e, rfl, hr, hc, hw⟩ |
    ⟨log, spawned, m2, rfl, hspawn, ⟨name, e, -, hr, hc, hw⟩ | ⟨-, hr, hw, hc⟩⟩
  · have hk : Keeps (LogPaths.forLog c.config.walPath) [] w.1 m1 := wp_error_of_run (e := e) hspec hopen
    have hfiles := hk.files ⟨hsound, nofun⟩
    rw [hc, hw]
    refine ⟨(anchors_of_stopped hstop).2 hfiles.1.sound,
      fun ck _ _ hck => ⟨hfiles.2 ck hck, fun hok => ?_⟩⟩
    rw [hr] at hok
    cases hok
  · -- the threads did not start: the log opened at the stored checkpoint is closed again
    obtain ⟨hset, hsame⟩ := wp_ok_of_run hspec hopen
    have hk2 : Keeps (LogPaths.forLog c.config.walPath) log.opened m1 m2 := by
      have := spawnAll_keeps (LogPaths.forLog c.config.walPath) log.opened
        (threadNames c.config.workerThreads) m1
      rwa [hspawn] at this
    have hset2 := hset.keeps hk2
    have hk3 : Keeps (LogPaths.forLog c.config.walPath) log.opened m2
        (DurableLog.close.run.run (m2, log)).2.1 :=
      wp_state (DurableLog.close_keeps (m := m2) (l := log)) (fun _ _ h => h) fun _ _ h => h
    have hfiles := hk3.files hset2.placed
    rw [hc, hw]
    refine ⟨(anchors_of_stopped hstop).2 hfiles.1.sound, fun ck _ hpos hck => ⟨?_, fun hok => ?_⟩⟩
    · rw [← hsame ck hpos hck]
      exact hfiles.2 _ hset2.stored
    · rw [hr] at hok
      cases hok
  · obtain ⟨hset, hsame⟩ := wp_ok_of_run hspec hopen
    have hk2 : Keeps (LogPaths.forLog c.config.walPath) log.opened m1 m2 := by
      have := spawnAll_keeps (LogPaths.forLog c.config.walPath) log.opened
        (threadNames c.config.workerThreads) m1
      rwa [hspawn] at this
    have hset2 := hset.keeps hk2
    rw [hc, hw]
    refine ⟨(anchors_of_active rfl).2 ⟨⟨N, hN⟩, hset2⟩, fun ck _ hpos hck => ⟨?_, fun _ => ?_⟩⟩
    · rw [← hsame ck hpos hck]
      exact hset2.stored
    · simp [checkpoint, hsame ck hpos hck]

theorem Anchors.write (h : c.Anchors w.1) {r : ChangeRecord} {x : Writing}
    (hrun : ((write (σ := σ) r).run c).run w = ((x, c'), w')) : c'.Anchors w'.1 := by
  rcases write_cases hrun with ⟨-, -, rfl, rfl⟩ | ⟨-, -, -, rfl, rfl⟩ |
    ⟨-, a, res, m1, log, ha, hlog, rfl, rfl, -⟩
  · exact h
  · exact h
  · obtain ⟨⟨N, hN⟩, hs⟩ := (anchors_of_active ha).1 h
    have hset : Log.Settled c.config.walPath (m1, log) := by
      have := wp_state (DurableLog.write_settles hN hs r) (fun _ _ h => h) fun _ _ h => h
      rwa [hlog] at this
    exact (anchors_of_active rfl).2 ⟨⟨N, hN⟩, hset⟩

/-- The end of a stop closes the log and leaves its checkpoint stored. -/
theorem Anchors.close {a : Active n} (h : c.Anchors w.1) (ha : c.active = some a) :
    ((DurableLog.runLog DurableLog.close a.log).run w.1).2.disk.Sound ∧
      Stored (LogPaths.forLog c.config.walPath) a.log.checkpoint
        ((DurableLog.runLog DurableLog.close a.log).run w.1).2.disk := by
  obtain ⟨-, hs⟩ := (anchors_of_active ha).1 h
  have hk : Keeps (LogPaths.forLog c.config.walPath) a.log.opened w.1
      (DurableLog.close.run.run (w.1, a.log)).2.1 :=
    wp_state (DurableLog.close_keeps (m := w.1) (l := a.log)) (fun _ _ h => h) fun _ _ h => h
  have hfiles := hk.files hs.placed
  exact ⟨hfiles.1.sound, hfiles.2 _ hs.stored⟩

end Coordinator

end EntityLog.Pipeline
