import EntityLog.Pipeline.Process
import EntityLog.Proofs.Pipeline.Handing
/-!
# What an event of a process does

Every event of a process either changes nothing, answers a call at once, runs one computation of
the coordinator (a start, or the write of a logging), or lets one thread of one pool take a step,
a caller's offer or stop included. `Takes e Q w notes Q' w'` lists these, one constructor each,
and `Takes.of_step` says that each event of `Process.step` is one of them. A thread's step is the
pool's own step on a pool that reports to the coordinator's metrics (`Coordinator.stepThread`),
and the pools of the coordinator, numbered in the order they started, change at that number only.
Invariants of a run are then proved once per constructor and lifted to every schedule by
`Takes.run_induction`.
-/

namespace EntityLog.Pipeline

open EntityLog.Files EntityLog.Log EntityLog.Record

variable {n : Nat} {σ : Type} (save : List ChangeRecord → World σ SaveOutcome)

namespace Pool

variable (P : Pool n) (r : Recorder)

@[simp] theorem lend_queue : (P.lend r).processor.queue = P.processor.queue := rfl
@[simp] theorem lend_batchSize : (P.lend r).processor.batchSize = P.processor.batchSize := rfl
@[simp] theorem lend_recorder : (P.lend r).processor.recorder = r := rfl
@[simp] theorem lend_workers : (P.lend r).workers = P.workers := rfl
@[simp] theorem lend_flusher : (P.lend r).flusher = P.flusher := rfl
@[simp] theorem lend_caller : (P.lend r).caller = P.caller := rfl
@[simp] theorem lend_signalled : (P.lend r).signalled = P.signalled := rfl
@[simp] theorem lend_rounds : (P.lend r).rounds = P.rounds := rfl

end Pool

theorem World.onMachine_run {α : Type} (x : StateM Machine α) (w : Machine × σ) :
    (World.onMachine (σ := σ) x).run w = ((x.run w.1).1, ((x.run w.1).2, w.2)) := rfl

namespace Coordinator

variable {c : Coordinator n}

/-- The coordinator once pool `g` became `P`, whose metrics are now the coordinator's. -/
def withPool (c : Coordinator n) (g : Nat) (P : Pool n) : Coordinator n :=
  { c.setPool g P with recorder := P.processor.recorder }

/-- Thread `t` of pool `P`, numbered `g`, takes a step in the world `w`, reporting to the
coordinator's metrics: the coordinator and the world after it. -/
def stepThread (c : Coordinator n) (g : Nat) (P : Pool n) (t : Pool.Thread n)
    (w : Machine × σ) : Coordinator n × (Machine × σ) :=
  let out := ((P.lend c.recorder).step save t).run w
  (c.withPool g out.1, out.2)

theorem pools_setPool {g : Nat} (hg : g < c.pools.length) (P : Pool n) :
    (c.setPool g P).pools = c.pools.set g P := by
  unfold setPool pools
  by_cases hd : g < c.detached.length
  · rw [if_pos hd, List.set_append_left _ _ hd]
  · rw [if_neg hd]
    cases ha : c.active with
    | none => simp [pools, ha] at hg; omega
    | some a =>
      have hlen : g = c.detached.length := by simp [pools, ha] at hg; omega
      subst hlen
      simp

@[simp] theorem setPool_config (g : Nat) (P : Pool n) : (c.setPool g P).config = c.config := by
  unfold setPool; split_ifs <;> rfl

@[simp] theorem setPool_recorder (g : Nat) (P : Pool n) :
    (c.setPool g P).recorder = c.recorder := by
  unfold setPool; split_ifs <;> rfl

@[simp] theorem setPool_detached_length (g : Nat) (P : Pool n) :
    (c.setPool g P).detached.length = c.detached.length := by
  unfold setPool; split_ifs <;> simp

/-- Replacing a pool keeps the log, and whether the coordinator runs. -/
theorem setPool_log (g : Nat) (P : Pool n) :
    (c.setPool g P).active.map (·.log) = c.active.map (·.log) := by
  unfold setPool; split_ifs <;> cases c.active <;> rfl

theorem pools_withPool {g : Nat} (hg : g < c.pools.length) (P : Pool n) :
    (c.withPool g P).pools = c.pools.set g P :=
  pools_setPool hg P

@[simp] theorem withPool_recorder (g : Nat) (P : Pool n) :
    (c.withPool g P).recorder = P.processor.recorder := rfl

@[simp] theorem withPool_config (g : Nat) (P : Pool n) : (c.withPool g P).config = c.config :=
  setPool_config g P

theorem withPool_log (g : Nat) (P : Pool n) :
    (c.withPool g P).active.map (·.log) = c.active.map (·.log) :=
  setPool_log g P

/-- The running pool is numbered after every detached one. -/
theorem pools_active {a : Active n} (ha : c.active = some a) :
    c.pools[c.detached.length]? = some a.pool := by
  simp [pools, ha]

/-- The coordinator once a stop is over: stopped, its pool left to its threads, and the queue
gauge and the shutdown reported. -/
def detach (c : Coordinator n) (P : Pool n) : Coordinator n :=
  { c with active := none, detached := c.detached ++ [P],
           recorder := (c.recorder.apply (.queueSize 0)).apply .shutdown }

theorem threadStep_run {g : Nat} {P : Pool n} (hP : c.pools[g]? = some P) (t : Pool.Thread n)
    (w : Machine × σ) :
    ((threadStep save g t).run c).run w =
      (((), (c.stepThread save g P t w).1), (c.stepThread save g P t w).2) := by
  simp only [threadStep, StateT.run_bind, StateT.run_get, pure_bind, hP, StateT.run_lift,
    bind_assoc, StateT.run_set]
  rfl

theorem threadStep_of_none {g : Nat} (hP : c.pools[g]? = none) (t : Pool.Thread n)
    (w : Machine × σ) : ((threadStep save g t).run c).run w = (((), c), w) := by
  simp only [threadStep, StateT.run_bind, StateT.run_get, pure_bind, hP]
  rfl

variable {w : Machine × σ}

theorem beginStop_of_stopped (h : c.active = none) :
    ((beginStop save).run c).run w = ((some {}, c), w) := by
  simp only [beginStop, StateT.run_bind, StateT.run_get, pure_bind, h]
  rfl

theorem beginStop_of_stopping {a : Active n} (ha : c.active = some a)
    (hs : a.pool.caller.stopping = true) :
    ((beginStop save).run c).run w = ((some {}, c), w) := by
  simp only [beginStop, StateT.run_bind, StateT.run_get, pure_bind, ha, hs, if_true]
  rfl

theorem beginStop_of_running {a : Active n} (ha : c.active = some a)
    (hr : a.pool.caller = .running) :
    ((beginStop save).run c).run w =
      ((none, (c.stepThread save c.detached.length a.pool .caller w).1),
        (c.stepThread save c.detached.length a.pool .caller w).2) := by
  simp only [beginStop, StateT.run_bind, StateT.run_get, pure_bind, ha, hr, Caller.stopping,
    Bool.false_eq_true, if_false]
  rw [threadStep_run save (pools_active ha)]
  rfl

theorem stopStep_of_stopped (h : c.active = none) :
    ((stopStep save).run c).run w = ((some {}, c), w) := by
  simp only [stopStep, StateT.run_bind, StateT.run_get, pure_bind, h]
  rfl

theorem stopStep_of_finished {a : Active n} (ha : c.active = some a) {done : ShutdownReport}
    {residue : List ChangeRecord} (hf : a.pool.caller = .finished done residue) :
    ((stopStep save).run c).run w =
      ((some done, c.detach a.pool), (((DurableLog.runLog DurableLog.close a.log).run w.1).2, w.2)) := by
  simp only [stopStep, StateT.run_bind, StateT.run_get, pure_bind, ha, hf]
  rfl

theorem stopStep_of_unfinished {a : Active n} (ha : c.active = some a)
    (hf : ∀ done residue, a.pool.caller ≠ .finished done residue) :
    ((stopStep save).run c).run w =
      ((none, (c.stepThread save c.detached.length a.pool .caller w).1),
        (c.stepThread save c.detached.length a.pool .caller w).2) := by
  simp only [stopStep, StateT.run_bind, StateT.run_get, pure_bind, ha]
  rw [threadStep_run save (pools_active ha)]
  rfl

theorem offer_of_pool {g : Nat} {P : Pool n} (hP : c.pools[g]? = some P) (r : ChangeRecord) :
    ((offer save r g).run c).run w =
      ((if (P.processor.queue.offer r).2 then .queued else .dropped,
        (c.stepThread save g P (.producer r) w).1), (c.stepThread save g P (.producer r) w).2) := by
  simp only [offer, StateT.run_bind, StateT.run_get, pure_bind, hP, Option.map_some,
    Option.getD_some]
  rw [threadStep_run save hP]
  rfl

theorem offer_of_none {g : Nat} (hP : c.pools[g]? = none) (r : ChangeRecord) :
    ((offer save r g).run c).run w = ((.dropped, c), w) := by
  simp only [offer, threadStep, StateT.run_bind, StateT.run_get, pure_bind, hP, Option.map_none,
    Option.getD_none]
  rfl

/-- Starting a stopped coordinator touches only the machine, and either leaves it stopped or, with
a valid configuration, runs a fresh pool on an empty queue. -/
theorem start_spec {c c' : Coordinator n} {w w' : Machine × σ} {r : Except LifecycleError Unit}
    (h : ((start (σ := σ)).run c).run w = ((r, c'), w')) (hc : c.active = none) :
    w'.2 = w.2 ∧ c'.config = c.config ∧ c'.recorder = c.recorder ∧ c'.detached = c.detached ∧
      (c'.active = none ∨ c.config.validate = .ok () ∧ r = .ok () ∧ ∃ log, c'.active = some
        ⟨log, Pool.spawn ⟨BoundedQueue.empty c.config.queueCapacity, c.recorder,
          c.config.batchSize⟩ c.config.shutdown.finalFlushRounds⟩) := by
  rcases hopen : (DurableLog.openLog c.config.walPath c.config.backup).run.run w.1 with
    ⟨opened, m1⟩
  rcases hspawn : (spawnAll (threadNames c.config.workerThreads)).run m1 with ⟨spawned, m2⟩
  simp only [start, StateT.run_bind, StateT.run_get, pure_bind, hc, Option.isSome_none,
    Bool.false_eq_true, if_false] at h
  cases hv : c.config.validate with
  | error e =>
    simp only [hv] at h
    cases h
    exact ⟨rfl, rfl, rfl, rfl, .inl hc⟩
  | ok u =>
    simp only [hv, StateT.run_bind, StateT.run_lift, World.onMachine_run, id_bind_eq, hopen,
      StateT.run_pure, id_pure_eq] at h
    cases opened with
    | error e =>
      simp only [StateT.run_pure, id_pure_eq] at h
      cases h
      exact ⟨rfl, rfl, rfl, rfl, .inl hc⟩
    | ok log =>
      simp only [StateT.run_bind, StateT.run_lift, World.onMachine_run, id_bind_eq, hspawn,
        StateT.run_pure, id_pure_eq] at h
      cases spawned with
      | error e =>
        simp only [closeLog, StateT.run_bind, StateT.run_lift, World.onMachine_run,
          id_bind_eq, StateT.run_pure, id_pure_eq] at h
        cases h
        exact ⟨rfl, rfl, rfl, rfl, .inl hc⟩
      | ok v =>
        cases h
        exact ⟨rfl, rfl, rfl, rfl, .inr ⟨rfl, rfl, log, rfl⟩⟩
/-- Everything a start can do: refuse a coordinator already started or a configuration out of
range, or open the log and then start the threads, either failing with the coordinator left as it
was (and the log closed again when the threads could not start) or running a fresh pool. -/
theorem start_cases {c c' : Coordinator n} {w w' : Machine × σ} {r : Except LifecycleError Unit}
    (h : ((start (σ := σ)).run c).run w = ((r, c'), w')) :
    (c.active.isSome ∧ r = .error (.alreadyStarted c.phase) ∧ c' = c ∧ w' = w) ∨
    (c.active = none ∧ ∃ e, c.config.validate = .error e ∧ r = .error (.config e) ∧ c' = c ∧
      w' = w) ∨
    (c.active = none ∧ c.config.validate = .ok () ∧ ∃ opened m1,
      (DurableLog.openLog c.config.walPath c.config.backup).run.run w.1 = (opened, m1) ∧
      ((∃ e, opened = .error e ∧ r = .error (.init e) ∧ c' = c ∧ w' = (m1, w.2)) ∨
        ∃ log spawned m2, opened = .ok log ∧
          (spawnAll (threadNames c.config.workerThreads)).run m1 = (spawned, m2) ∧
          ((∃ name e, spawned = .error (name, e) ∧ r = .error (.spawn name e) ∧ c' = c ∧
              w' = (((DurableLog.runLog DurableLog.close log).run m2).2, w.2)) ∨
            (spawned = .ok () ∧ r = .ok () ∧ w' = (m2, w.2) ∧
              c' = { c with active := some ⟨log, Pool.spawn ⟨BoundedQueue.empty
                c.config.queueCapacity, c.recorder, c.config.batchSize⟩
                  c.config.shutdown.finalFlushRounds⟩ })))) := by
  cases hc : c.active with
  | some a =>
    simp only [start, StateT.run_bind, StateT.run_get, pure_bind, hc, Option.isSome_some,
      if_true, StateT.run_pure, id_pure_eq] at h
    cases h
    exact .inl ⟨rfl, rfl, rfl, rfl⟩
  | none =>
    rcases hopen : (DurableLog.openLog c.config.walPath c.config.backup).run.run w.1 with
      ⟨opened, m1⟩
    simp only [start, StateT.run_bind, StateT.run_get, pure_bind, hc, Option.isSome_none,
      Bool.false_eq_true, if_false] at h
    cases hv : c.config.validate with
    | error e =>
      simp only [hv] at h
      cases h
      exact .inr (.inl ⟨rfl, e, rfl, rfl, rfl, rfl⟩)
    | ok u =>
      refine .inr (.inr ⟨rfl, rfl, opened, m1, rfl, ?_⟩)
      simp only [hv, StateT.run_bind, StateT.run_lift, World.onMachine_run, id_bind_eq, hopen,
        StateT.run_pure, id_pure_eq] at h
      cases opened with
      | error e =>
        simp only [StateT.run_pure, id_pure_eq] at h
        cases h
        exact .inl ⟨e, rfl, rfl, rfl, rfl⟩
      | ok log =>
        rcases hspawn : (spawnAll (threadNames c.config.workerThreads)).run m1 with
          ⟨spawned, m2⟩
        simp only [StateT.run_bind, StateT.run_lift, World.onMachine_run, id_bind_eq, hspawn,
          StateT.run_pure, id_pure_eq] at h
        refine .inr ⟨log, spawned, m2, rfl, rfl, ?_⟩
        cases spawned with
        | error e =>
          simp only [closeLog, StateT.run_bind, StateT.run_lift, World.onMachine_run,
            id_bind_eq, StateT.run_pure, id_pure_eq] at h
          cases h
          exact .inl ⟨e.1, e.2, rfl, rfl, rfl, rfl⟩
        | ok v =>
          cases h
          exact .inr ⟨rfl, rfl, rfl, rfl⟩

/-- The write of a logging touches only the machine and the running log: the pools stay, no
answer says the record was queued, and the offer goes to the running pool. -/
theorem write_spec {c c' : Coordinator n} {w w' : Machine × σ} {r : ChangeRecord} {x : Writing}
    (h : ((write (σ := σ) r).run c).run w = ((x, c'), w')) :
    w'.2 = w.2 ∧ c'.pools = c.pools ∧ c'.config = c.config ∧ c'.recorder = c.recorder ∧
      (∀ res, x = .answered res → res ≠ .ok .queued) ∧
      (∀ g, x = .written g → c.active.isSome = true ∧ g = c.detached.length) ∧
      c'.active.isSome = c.active.isSome := by
  simp only [write, StateT.run_bind, StateT.run_get, pure_bind] at h
  by_cases hcap : c.config.capture.captures r.entity.name = true
  · simp only [hcap, Bool.not_true, Bool.false_eq_true, if_false] at h
    cases ha : c.active with
    | none =>
      simp only [ha, Option.isNone_none, if_true, StateT.run_pure, id_pure_eq] at h
      cases h
      exact ⟨rfl, rfl, rfl, rfl, by simp, by simp, by simp [ha]⟩
    | some a =>
      rcases hlog : (DurableLog.runLog (DurableLog.write r) a.log).run w.1 with ⟨⟨res, log⟩, m1⟩
      simp only [ha, Option.isNone_some, Bool.false_eq_true, if_false, onLog, StateT.run_bind,
        StateT.run_get, pure_bind, StateT.run_lift, World.onMachine_run, id_bind_eq, hlog,
        StateT.run_modify, StateT.run_pure, id_pure_eq] at h
      split at h <;> (simp only [StateT.run_pure, id_pure_eq] at h; cases h)
      · exact ⟨rfl, by simp [pools, ha], rfl, rfl, by simp, by simp, by simp⟩
      · exact ⟨rfl, by simp [pools, ha], rfl, rfl, by simp, by simp, by simp⟩
      · exact ⟨rfl, by simp [pools, ha], rfl, rfl, by simp, by simp, by simp⟩
  · simp only [hcap, Bool.not_false, if_true, StateT.run_pure, id_pure_eq] at h
    cases h
    exact ⟨rfl, rfl, rfl, rfl, by simp, by simp, rfl⟩

/-- Everything the write of a logging can do: skip a record the capture filter refuses, refuse
while stopped, or write to the running log, which either refuses (as not running when it says it is
closed) or takes the record for the running pool. -/
theorem write_cases {c c' : Coordinator n} {w w' : Machine × σ} {r : ChangeRecord} {x : Writing}
    (h : ((write (σ := σ) r).run c).run w = ((x, c'), w')) :
    (c.config.capture.captures r.entity.name = false ∧ x = .answered (.ok .skipped) ∧ c' = c ∧
      w' = w) ∨
    (c.config.capture.captures r.entity.name = true ∧ c.active = none ∧
      x = .answered (.error .notRunning) ∧ c' = c ∧ w' = w) ∨
    (c.config.capture.captures r.entity.name = true ∧ ∃ a res m1 log, c.active = some a ∧
      (DurableLog.write r).run.run (w.1, a.log) = (res, m1, log) ∧
      c' = { c with active := some { a with log := log } } ∧ w' = (m1, w.2) ∧
      ((res = .error .closed ∧ x = .answered (.error .notRunning)) ∨
        (∃ e, e ≠ .closed ∧ res = .error e ∧ x = .answered (.error (.write e))) ∨
        (∃ ck, res = .ok ck ∧ x = .written c.detached.length))) := by
  simp only [write, StateT.run_bind, StateT.run_get, pure_bind] at h
  cases hcap : c.config.capture.captures r.entity.name with
  | false =>
    simp only [hcap, Bool.not_false, if_true, StateT.run_pure, id_pure_eq] at h
    cases h
    exact .inl ⟨rfl, rfl, rfl, rfl⟩
  | true =>
    simp only [hcap, Bool.not_true, Bool.false_eq_true, if_false] at h
    cases ha : c.active with
    | none =>
      simp only [ha, Option.isNone_none, if_true, StateT.run_pure, id_pure_eq] at h
      cases h
      exact .inr (.inl ⟨rfl, rfl, rfl, rfl, rfl⟩)
    | some a =>
      rcases hlog : (DurableLog.write r).run.run (w.1, a.log) with ⟨res, m1, log⟩
      have hrun : (DurableLog.runLog (DurableLog.write r) a.log).run w.1 = ((res, log), m1) := by
        show ((((DurableLog.write r).run.run (w.1, a.log)).1,
          ((DurableLog.write r).run.run (w.1, a.log)).2.2),
          ((DurableLog.write r).run.run (w.1, a.log)).2.1) = _
        rw [hlog]
      simp only [ha, Option.isNone_some, Bool.false_eq_true, if_false, onLog, StateT.run_bind,
        StateT.run_get, pure_bind, StateT.run_lift, World.onMachine_run, hrun, id_bind_eq,
        StateT.run_modify, StateT.run_pure, id_pure_eq] at h
      refine .inr (.inr ⟨rfl, a, res, m1, log, rfl, hlog, ?_⟩)
      split at h <;> (simp only [StateT.run_pure, id_pure_eq] at h; cases h)
      · exact ⟨rfl, rfl, .inl ⟨rfl, rfl⟩⟩
      · rename_i e he
        exact ⟨rfl, rfl, .inr (.inl ⟨e, he, rfl, rfl⟩)⟩
      · rename_i ck
        exact ⟨rfl, rfl, .inr (.inr ⟨ck, rfl, rfl⟩)⟩

end Coordinator

namespace Process

/-- The process with caller `k` at `p`. -/
def withCaller (Q : Process n) (k : Nat) (p : Pending) : Process n :=
  { Q with callers := fun j => if j = k then p else Q.callers j }

@[simp] theorem withCaller_coordinator (Q : Process n) (k : Nat) (p : Pending) :
    (Q.withCaller k p).coordinator = Q.coordinator := rfl

@[simp] theorem withCaller_self (Q : Process n) (k : Nat) (p : Pending) :
    (Q.withCaller k p).callers k = p := by
  simp [withCaller]

theorem withCaller_other (Q : Process n) {k j : Nat} (h : j ≠ k) (p : Pending) :
    (Q.withCaller k p).callers j = Q.callers j := by
  simp [withCaller, h]

section Runs

variable {α β : Type} (Q : Process n) (w : Machine × σ)

theorem run_bind (x : OnProcess n σ α) (f : α → OnProcess n σ β) :
    ((x >>= f).run Q).run w =
      ((f ((x.run Q).run w).1.1).run ((x.run Q).run w).1.2).run ((x.run Q).run w).2 := rfl

theorem coordinate_run (x : OnCoordinator n σ α) :
    ((coordinate x).run Q).run w =
      ((((x.run Q.coordinator).run w).1.1,
        { Q with coordinator := ((x.run Q.coordinator).run w).1.2 }),
        ((x.run Q.coordinator).run w).2) := rfl

theorem setCaller_run (k : Nat) (p : Pending) :
    ((setCaller k p : OnProcess n σ Unit).run Q).run w = (((), Q.withCaller k p), w) := rfl

theorem get_run : ((get : OnProcess n σ (Process n)).run Q).run w = ((Q, Q), w) := rfl

theorem pure_run (a : α) : ((pure a : OnProcess n σ α).run Q).run w = ((a, Q), w) := rfl

end Runs

/-- What an event can do to a process `Q` on the world `w`, noting `notes`, leaving `Q'` and
`w'`; `c` is the coordinator. -/
inductive Takes : Event → Process n → Machine × σ → List (Note n) → Process n → Machine × σ →
    Prop where
  /-- Nothing: a caller that is busy begins no call, an idle one has no step to take, and a
  thread of no pool does not move. -/
  | skip {e : Event} {Q : Process n} {w : Machine × σ} : Takes e Q w [] Q w
  /-- An idle caller's call answered from what the coordinator shows. -/
  | answer {e : Event} {Q : Process n} {w : Machine × σ} (k : Nat) (a : Answer)
      (hk : Q.callers k = .idle)
      (ha : a = .stopped {} ∨ (∃ q, a = .queueSize q) ∨ ∃ ck, a = .checkpoint ck) :
      Takes e Q w [.answered k a] Q w
  | start {Q : Process n} {w : Machine × σ} (k : Nat) (hk : Q.callers k = .idle)
      {r : Except LifecycleError Unit} {c' : Coordinator n} {w' : Machine × σ}
      (h : ((Coordinator.start (σ := σ)).run Q.coordinator).run w = ((r, c'), w')) :
      Takes (.call k .start) Q w [.answered k (.started r)] { Q with coordinator := c' } w'
  /-- A stop of a running coordinator: the caller of its pool takes its first step. -/
  | beginStop {Q : Process n} {w : Machine × σ} (k : Nat) (hk : Q.callers k = .idle)
      {a : Active n} (ha : Q.coordinator.active = some a) (hrun : a.pool.caller = .running) :
      Takes (.call k .stop) Q w []
        ({ Q with coordinator := (Q.coordinator.stepThread save Q.coordinator.detached.length
            a.pool .caller w).1 }.withCaller k .stopping)
        (Q.coordinator.stepThread save Q.coordinator.detached.length a.pool .caller w).2
  | logAnswered {Q : Process n} {w : Machine × σ} (k : Nat) (hk : Q.callers k = .idle)
      {r : ChangeRecord} {res : Except LifecycleError Logged} {c' : Coordinator n}
      {w' : Machine × σ}
      (h : ((Coordinator.write (σ := σ) r).run Q.coordinator).run w = ((.answered res, c'), w')) :
      Takes (.call k (.log r)) Q w [.answered k (.logged r res)] { Q with coordinator := c' } w'
  /-- The log took a record; its offer to the queue of pool `g` is the caller's next step. -/
  | logWritten {Q : Process n} {w : Machine × σ} (k : Nat) (hk : Q.callers k = .idle)
      {r : ChangeRecord} {g : Nat} {c' : Coordinator n} {w' : Machine × σ}
      (h : ((Coordinator.write (σ := σ) r).run Q.coordinator).run w = ((.written g, c'), w')) :
      Takes (.call k (.log r)) Q w [.wrote k r]
        ({ Q with coordinator := c' }.withCaller k (.offering r g)) w'
  | offer {Q : Process n} {w : Machine × σ} (k : Nat) {r : ChangeRecord} {g : Nat}
      (hk : Q.callers k = .offering r g) {P : Pool n} (hP : Q.coordinator.pools[g]? = some P) :
      Takes (.resume k) Q w
        [.answered k (.logged r (.ok (if (P.processor.queue.offer r).2 then .queued
          else .dropped)))]
        ({ Q with coordinator := (Q.coordinator.stepThread save g P (.producer r) w).1 }.withCaller
          k .idle)
        (Q.coordinator.stepThread save g P (.producer r) w).2
  | offerLost {Q : Process n} {w : Machine × σ} (k : Nat) {r : ChangeRecord} {g : Nat}
      (hk : Q.callers k = .offering r g) (hP : Q.coordinator.pools[g]? = none) :
      Takes (.resume k) Q w [.answered k (.logged r (.ok .dropped))] (Q.withCaller k .idle) w
  /-- A later stage of a stop: the caller of the running pool takes its next step. -/
  | stopStep {Q : Process n} {w : Machine × σ} (k : Nat) (hk : Q.callers k = .stopping)
      {a : Active n} (ha : Q.coordinator.active = some a)
      (hf : ∀ done residue, a.pool.caller ≠ .finished done residue) :
      Takes (.resume k) Q w (joinNote Q.coordinator)
        { Q with coordinator := (Q.coordinator.stepThread save Q.coordinator.detached.length
            a.pool .caller w).1 }
        (Q.coordinator.stepThread save Q.coordinator.detached.length a.pool .caller w).2
  /-- The last stage of a stop: the pool is left to its threads and the log closes. -/
  | stopEnd {Q : Process n} {w : Machine × σ} (k : Nat) (hk : Q.callers k = .stopping)
      {a : Active n} (ha : Q.coordinator.active = some a) {done : ShutdownReport}
      {residue : List ChangeRecord} (hf : a.pool.caller = .finished done residue) :
      Takes (.resume k) Q w [.answered k (.stopped done)]
        ({ Q with coordinator := Q.coordinator.detach a.pool }.withCaller k .idle)
        (((DurableLog.runLog DurableLog.close a.log).run w.1).2, w.2)
  | stopGone {Q : Process n} {w : Machine × σ} (k : Nat) (hk : Q.callers k = .stopping)
      (ha : Q.coordinator.active = none) :
      Takes (.resume k) Q w [.answered k (.stopped {})] (Q.withCaller k .idle) w
  | worker {Q : Process n} {w : Machine × σ} (g i : Nat) (hi : i < n) {P : Pool n}
      (hP : Q.coordinator.pools[g]? = some P) :
      Takes (.worker g i) Q w []
        { Q with coordinator := (Q.coordinator.stepThread save g P (.worker ⟨i, hi⟩) w).1 }
        (Q.coordinator.stepThread save g P (.worker ⟨i, hi⟩) w).2
  | flusher {Q : Process n} {w : Machine × σ} (g : Nat) {P : Pool n}
      (hP : Q.coordinator.pools[g]? = some P) :
      Takes (.flusher g) Q w
        (if (P.flusher == .waiting && !P.signalled) = true then [.fired g] else [])
        { Q with coordinator := (Q.coordinator.stepThread save g P .flusher w).1 }
        (Q.coordinator.stepThread save g P .flusher w).2

/-- Not yet begun or under way, a stop's caller stage is running exactly when it is not
stopping. -/
theorem Caller.eq_running_of_stopping {c : Caller} (h : c.stopping = false) : c = .running := by
  cases c <;> simp_all [Caller.stopping]

/-- Every event of a process is one of the steps `Takes` lists. -/
theorem Takes.of_step {e : Event} {Q Q' : Process n} {w w' : Machine × σ} {notes : List (Note n)}
    (h : ((step save e).run Q).run w = ((notes, Q'), w')) : Takes save e Q w notes Q' w' := by
  cases e with
  | call k c =>
    simp only [step, run_bind, get_run] at h
    cases hk : Q.callers k with
    | offering r g => simp only [hk, pure_run] at h; cases h; exact .skip
    | stopping => simp only [hk, pure_run] at h; cases h; exact .skip
    | idle =>
      simp only [hk] at h
      cases c with
      | start =>
        simp only [begin, run_bind, coordinate_run, pure_run] at h
        cases h
        exact .start k hk rfl
      | stop =>
        simp only [begin, run_bind, coordinate_run] at h
        cases ha : Q.coordinator.active with
        | none =>
          rw [Coordinator.beginStop_of_stopped save ha] at h
          cases h
          exact .answer k _ hk (.inl rfl)
        | some a =>
          cases hs : a.pool.caller.stopping with
          | true =>
            rw [Coordinator.beginStop_of_stopping save ha hs] at h
            cases h
            exact .answer k _ hk (.inl rfl)
          | false =>
            have hr := Caller.eq_running_of_stopping hs
            rw [Coordinator.beginStop_of_running save ha hr] at h
            simp only [run_bind, setCaller_run, pure_run] at h
            cases h
            exact .beginStop k hk ha hr
      | log r =>
        simp only [begin, run_bind, coordinate_run] at h
        generalize hwrite : ((Coordinator.write (σ := σ) r).run Q.coordinator).run w = out at h
        obtain ⟨⟨result, c'⟩, w1⟩ := out
        cases result with
        | answered res =>
          simp only [pure_run] at h
          cases h
          exact .logAnswered k hk hwrite
        | written g =>
          simp only [run_bind, setCaller_run, pure_run] at h
          cases h
          exact .logWritten k hk hwrite
      | queueSize =>
        simp only [begin, run_bind, get_run, pure_run] at h
        cases h
        exact .answer k _ hk (.inr (.inl ⟨_, rfl⟩))
      | checkpoint =>
        simp only [begin, run_bind, get_run, pure_run] at h
        cases h
        exact .answer k _ hk (.inr (.inr ⟨_, rfl⟩))
  | resume k =>
    simp only [step, resume, run_bind, get_run] at h
    cases hk : Q.callers k with
    | idle => simp only [hk, pure_run] at h; cases h; exact .skip
    | offering r g =>
      simp only [hk, run_bind, coordinate_run] at h
      cases hP : Q.coordinator.pools[g]? with
      | none =>
        rw [Coordinator.offer_of_none save hP] at h
        simp only [setCaller_run, pure_run] at h
        cases h
        exact .offerLost k hk hP
      | some P =>
        rw [Coordinator.offer_of_pool save hP] at h
        simp only [setCaller_run, pure_run] at h
        cases h
        exact .offer k hk hP
    | stopping =>
      simp only [hk, run_bind, get_run, coordinate_run] at h
      cases ha : Q.coordinator.active with
      | none =>
        rw [Coordinator.stopStep_of_stopped save ha] at h
        simp only [joinNote, ha, List.nil_append] at h
        cases h
        exact .stopGone k hk ha
      | some a =>
        by_cases hf : ∃ done residue, a.pool.caller = .finished done residue
        · obtain ⟨done, residue, hf⟩ := hf
          rw [Coordinator.stopStep_of_finished save ha hf] at h
          simp only [joinNote, ha, hf, List.nil_append] at h
          cases h
          exact .stopEnd k hk ha hf
        · simp only [not_exists] at hf
          rw [Coordinator.stopStep_of_unfinished save ha hf] at h
          simp only [pure_run] at h
          cases h
          exact .stopStep k hk ha hf
  | worker g i =>
    simp only [step] at h
    by_cases hi : i < n
    · simp only [hi, dif_pos, run_bind, coordinate_run, pure_run] at h
      cases hP : Q.coordinator.pools[g]? with
      | none =>
        rw [Coordinator.threadStep_of_none save hP] at h
        cases h
        exact .skip
      | some P =>
        rw [Coordinator.threadStep_run save hP] at h
        cases h
        exact .worker g i hi hP
    · simp only [hi, dif_neg, not_false_eq_true, pure_run] at h
      cases h
      exact .skip
  | flusher g =>
    simp only [step, run_bind, get_run, coordinate_run, pure_run] at h
    cases hP : Q.coordinator.pools[g]? with
    | none =>
      rw [Coordinator.threadStep_of_none save hP] at h
      simp only [fires, hP] at h
      cases h
      exact .skip
    | some P =>
      rw [Coordinator.threadStep_run save hP] at h
      simp only [fires, hP] at h
      cases h
      exact .flusher g hP

theorem run_nil (Q : Process n) (w : Machine × σ) : ((run save []).run Q).run w = (([], Q), w) :=
  rfl

/-- A schedule runs its first event, then the rest from where that left the process. -/
theorem run_cons (e : Event) (events : List Event) (Q : Process n) (w : Machine × σ) :
    ((run save (e :: events)).run Q).run w =
      (((((step save e).run Q).run w).1.1 ++
          ((((run save events).run (((step save e).run Q).run w).1.2).run
            (((step save e).run Q).run w).2).1.1),
        (((run save events).run (((step save e).run Q).run w).1.2).run
          (((step save e).run Q).run w).2).1.2),
        (((run save events).run (((step save e).run Q).run w).1.2).run
          (((step save e).run Q).run w).2).2) := rfl

/-- What every step an event can take keeps, from the notes so far and the process and world as
they are, holds after every schedule of such events. -/
theorem Takes.run_induction (Allowed : Event → Prop)
    (Inv : List (Note n) → Process n → Machine × σ → Prop)
    (hstep : ∀ {e : Event} {done : List (Note n)} {Q : Process n} {w : Machine × σ}
      {new : List (Note n)} {Q' : Process n} {w' : Machine × σ}, Allowed e → Inv done Q w →
      Takes save e Q w new Q' w' → Inv (done ++ new) Q' w') :
    ∀ (events : List Event) {done : List (Note n)} {Q : Process n} {w : Machine × σ},
      (∀ e ∈ events, Allowed e) → Inv done Q w →
      Inv (done ++ (((run save events).run Q).run w).1.1) (((run save events).run Q).run w).1.2
        (((run save events).run Q).run w).2
  | [], done, Q, w, _, h => by
    rw [run_nil, List.append_nil]
    exact h
  | e :: events, done, Q, w, hall, h => by
    have hfirst := hstep (hall e List.mem_cons_self) h (Takes.of_step save rfl)
    have hrest := Takes.run_induction Allowed Inv hstep events
      (fun e' he' => hall e' (List.mem_cons_of_mem e he')) hfirst
    rw [run_cons, ← List.append_assoc]
    exact hrest

/-- What every step keeps of the process and the world alone holds after every schedule. -/
theorem Takes.run_keeps (Inv : Process n → Machine × σ → Prop)
    (hstep : ∀ {e : Event} {Q : Process n} {w : Machine × σ} {new : List (Note n)}
      {Q' : Process n} {w' : Machine × σ}, Inv Q w → Takes save e Q w new Q' w' → Inv Q' w')
    (events : List Event) {Q Q' : Process n} {w w' : Machine × σ} {notes : List (Note n)}
    (h0 : Inv Q w) (hrun : ((run save events).run Q).run w = ((notes, Q'), w')) : Inv Q' w' := by
  have h := @Takes.run_induction n σ save (fun _ => True) (fun _ Q w => Inv Q w)
    (fun _ hinv ht => hstep hinv ht) events [] Q w (fun _ _ => trivial) h0
  rw [hrun] at h
  exact h

/-- What every step keeps, a start included only while no pool was ever started, holds after a
schedule that starts a coordinator that never ran and then never starts it again. -/
theorem Takes.run_started (Inv : List (Note n) → Process n → Machine × σ → Prop)
    (hstep : ∀ {e : Event} {done : List (Note n)} {Q : Process n} {w : Machine × σ}
      {new : List (Note n)} {Q' : Process n} {w' : Machine × σ},
      (∀ k, e = .call k .start → Q.coordinator.pools = []) → Inv done Q w →
      Takes save e Q w new Q' w' → Inv (done ++ new) Q' w')
    (k₀ : Nat) (events : List Event) (honce : ∀ e ∈ events, ∀ k, e ≠ .call k .start)
    {Q₀ : Process n} {w₀ : Machine × σ} (hpools : Q₀.coordinator.pools = []) (h0 : Inv [] Q₀ w₀)
    {notes : List (Note n)} {Q : Process n} {w : Machine × σ}
    (hrun : ((run save (.call k₀ .start :: events)).run Q₀).run w₀ = ((notes, Q), w)) :
    Inv notes Q w := by
  rcases hfirst : ((step save (.call k₀ .start)).run Q₀).run w₀ with ⟨⟨notes₁, Q₁⟩, w₁⟩
  have h1 := hstep (fun _ _ => hpools) h0 (Takes.of_step save hfirst)
  have hall := Takes.run_induction save (fun e => ∀ k, e ≠ .call k .start) Inv
    (fun hallowed hinv ht => hstep (fun k he => absurd he (hallowed k)) hinv ht) events honce h1
  rw [run_cons, hfirst] at hrun
  obtain ⟨hpair, hworld⟩ := Prod.mk.inj hrun
  obtain ⟨hnotes, hQ⟩ := Prod.mk.inj hpair
  rwa [List.nil_append, hnotes, hQ, hworld] at hall

end Process

end EntityLog.Pipeline
