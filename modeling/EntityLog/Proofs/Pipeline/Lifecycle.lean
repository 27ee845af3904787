import EntityLog.Proofs.Pipeline.Resources
import EntityLog.Proofs.Pipeline.Shutdown
import EntityLog.Script.Coordinator
/-!
# The lifecycle of a coordinator

Between calls a coordinator is stopped or running, and it runs exactly when it holds its log,
whose lock the process holds, and a pool no stop has begun on. A start when stopped succeeds and
runs it, or fails on its configuration, on opening its log or on starting its threads and leaves
it stopped with the locks as they were; a start when not stopped refuses and changes nothing. A
stop when not running reports nothing and changes nothing; a stop when running takes steps of its
caller, at most twice the final flush's rounds and five of them whatever else happens in between,
and its last one leaves the coordinator stopped with the log's lock given back. On a machine whose
calls never report a missing file, the first start that succeeds after a stop opens the log at
the checkpoint the stop closed it at. Every event keeps what a process holds and the agreement
between its callers and the stop of its running pool (`Kept`), so these laws (`Lifecycle`) hold
after every schedule of calls and thread steps, whatever calls of the machine fail.
-/

namespace EntityLog.Pipeline

open EntityLog.Files EntityLog.Record EntityLog.Log EntityLog.Config

/-! ## How far a stop has to go -/

/-- The steps the caller of a pool whose final flush runs at most `rounds` rounds still takes
before its stop is over. -/
def Caller.left (rounds : Nat) : Caller → Nat
  | .running => 2 * rounds + 5
  | .closed => 2 * rounds + 4
  | .joining => 2 * rounds + 3
  | .waiting _ => 2 * rounds + 2
  | .flushing _ k => 2 * k + 1
  | .handing _ _ k => 2 * k + 2
  | .finished _ _ => 0

/-- Whether an event is a step of caller `k`'s call. -/
def Event.resumes (k : Nat) : Event → Bool
  | .resume j => j == k
  | _ => false

theorem Event.eq_of_resumes {k : Nat} {e : Event} (h : e.resumes k = true) : e = .resume k := by
  cases e with
  | resume j => simp_all [Event.resumes]
  | _ => simp [Event.resumes] at h

theorem Caller.stopping_of_ne {c : Caller} (h : c ≠ .running) : c.stopping = true := by
  cases hs : c.stopping
  · exact absurd (Process.Caller.eq_running_of_stopping hs) h
  · rfl

namespace Pool

variable {n : Nat} {S : Type} (save : List ChangeRecord → StateM S SaveOutcome)

theorem step_rounds (P : Pool n) (t : Thread n) (w : S) :
    ((P.step save t).run w).1.rounds = P.rounds := by
  cases t with
  | worker i =>
    simp only [step, workerStep]
    split <;> simp only [setWorker, StateT.run_bind, StateT.run_pure, id_bind_eq, id_pure_eq]
  | flusher =>
    simp only [step, flusherStep]
    split <;> simp only [StateT.run_bind, StateT.run_pure, id_bind_eq, id_pure_eq]
  | caller =>
    simp only [step, callerStep]
    split <;> simp only [StateT.run_bind, StateT.run_pure, id_bind_eq, id_pure_eq]
  | producer r => rfl

/-- Each step of a caller whose stop is not over brings the stop's end one step closer. -/
theorem callerStep_left (P : Pool n) (hf : ∀ done residue, P.caller ≠ .finished done residue)
    (w : S) : ((P.callerStep save).run w).1.caller.left P.rounds + 1 ≤ P.caller.left P.rounds := by
  cases hc : P.caller with
  | finished done residue => exact absurd hc (hf done residue)
  | flushing report k =>
    cases k with
    | zero =>
      simp only [callerStep, hc, StateT.run_pure, id_pure_eq]
      simp [Caller.left]
    | succ k =>
      simp only [callerStep, hc, StateT.run_pure, id_pure_eq, Caller.left]
      omega
  | handing batch report k =>
    simp only [callerStep, hc, StateT.run_bind, id_bind_eq, StateT.run_pure, id_pure_eq,
      Caller.left]
    split_ifs <;> omega
  | _ =>
    simp only [callerStep, hc, StateT.run_pure, id_pure_eq]
    simp [Caller.left]

end Pool

namespace Coordinator

variable {n : Nat} {σ : Type} {save : List ChangeRecord → World σ SaveOutcome}
  {c c' : Coordinator n} {w w' : Machine × σ}

/-- Where the running pool's stop is, and how many rounds its final flush has. -/
def stopStage (c : Coordinator n) : Option (Caller × Nat) :=
  c.active.map fun a => (a.pool.caller, a.pool.rounds)

theorem stopStage_of_active {a : Active n} (h : c.active = some a) :
    c.stopStage = some (a.pool.caller, a.pool.rounds) := by
  simp [stopStage, h]

theorem withPool_running {a : Active n} (ha : c.active = some a) (P' : Pool n) :
    (c.withPool c.detached.length P').active = some { a with pool := P' } := by
  simp [withPool, setPool, ha]

/-- A step of a thread of the running pool replaces that pool in place. -/
theorem stepThread_running {a : Active n} (ha : c.active = some a) (t : Pool.Thread n)
    (w : Machine × σ) :
    (c.stepThread save c.detached.length a.pool t w).1.active =
      some { a with pool := (((a.pool.lend c.recorder).step save t).run w).1 } :=
  withPool_running ha _

/-- Replacing pool `g` leaves the running pool as it was, unless it is the pool replaced. -/
theorem withPool_active {g : Nat} {P : Pool n} (hP : c.pools[g]? = some P) (P' : Pool n) :
    (c.withPool g P').active = c.active ∨ ∃ a, c.active = some a ∧ a.pool = P ∧
      (c.withPool g P').active = some { a with pool := P' } := by
  unfold withPool setPool
  split_ifs with hd hg
  · exact .inl rfl
  · cases ha : c.active with
    | none => exact .inl (by simp)
    | some a =>
      refine .inr ⟨a, rfl, ?_, by simp⟩
      rw [hg, pools_active ha, Option.some.injEq] at hP
      exact hP
  · exact .inl rfl

/-- A step of a worker, the flusher or a producer leaves the stop of the running pool where it
was. -/
theorem stepThread_stopStage {g : Nat} {P : Pool n} (hP : c.pools[g]? = some P)
    {t : Pool.Thread n} (ht : t ≠ .caller) (w : Machine × σ) :
    (c.stepThread save g P t w).1.stopStage = c.stopStage := by
  rcases withPool_active hP (((P.lend c.recorder).step save t).run w).1 with h | ⟨a, ha, rfl, h⟩
  · exact congrArg (Option.map _) h
  · show (c.withPool g _).stopStage = c.stopStage
    rw [stopStage_of_active h, stopStage_of_active ha,
      (Pool.step_shared save (a.pool.lend c.recorder) ht w).1,
      Pool.step_rounds save (a.pool.lend c.recorder) t w]
    rfl

theorem write_stopStage {r : ChangeRecord} {x : Writing}
    (hrun : ((write (σ := σ) r).run c).run w = ((x, c'), w')) : c'.stopStage = c.stopStage := by
  rcases write_cases hrun with ⟨-, -, rfl, -⟩ | ⟨-, -, -, rfl, -⟩ | ⟨-, a, -, -, -, ha, -, rfl, -⟩
  · rfl
  · rfl
  · simp [stopStage, ha]

/-- A start changes nothing of a coordinator but its running log and pool, and those only when
it was stopped: then it runs a fresh pool, whose caller has not begun to stop. -/
theorem start_active {r : Except LifecycleError Unit}
    (hrun : ((start (σ := σ)).run c).run w = ((r, c'), w')) :
    c'.config = c.config ∧ (c' = c ∨ c.active = none ∧ r = .ok () ∧ ∃ log, c'.active = some
      ⟨log, Pool.spawn ⟨BoundedQueue.empty c.config.queueCapacity, c.recorder, c.config.batchSize⟩
        c.config.shutdown.finalFlushRounds⟩) := by
  rcases start_cases hrun with ⟨-, -, rfl, -⟩ | ⟨-, -, -, -, rfl, -⟩ |
    ⟨hstop, -, -, -, -, ⟨-, -, -, rfl, -⟩ | ⟨log, -, -, -, -, ⟨-, -, -, -, rfl, -⟩ | ⟨-, hr, -, rfl⟩⟩⟩
  · exact ⟨rfl, .inl rfl⟩
  · exact ⟨rfl, .inl rfl⟩
  · exact ⟨rfl, .inl rfl⟩
  · exact ⟨rfl, .inl rfl⟩
  · exact ⟨rfl, .inr ⟨hstop, hr, log, rfl⟩⟩

end Coordinator

namespace Process

variable {n : Nat} {σ : Type} {save : List ChangeRecord → World σ SaveOutcome}

/-- A machine on which a log keeps its checkpoint: no call is planned to report a missing file,
the clock gives valid instants, and the disk is sound. -/
structure Keeping (m : Machine) : Prop where
  honest : Honest m
  clock : ∀ t, (m.clock t).Valid
  sound : m.disk.Sound

/-- The callers of a process and the stop of its running pool agree: a caller stops exactly while
the running pool's caller has begun to stop, and only one caller does. The running pool's final
flush has the configured rounds, and a stop under way has at most twice as many steps and four
left. -/
structure Stops (config : PipelineConfig) (Q : Process n) : Prop where
  stopping : ∀ k, Q.callers k = .stopping →
    ∃ a, Q.coordinator.active = some a ∧ a.pool.caller.stopping = true
  stopper : ∀ a, Q.coordinator.active = some a → a.pool.caller.stopping = true →
    ∃ k, Q.callers k = .stopping
  single : ∀ k j, Q.callers k = .stopping → Q.callers j = .stopping → k = j
  rounds : ∀ a, Q.coordinator.active = some a →
    a.pool.rounds = config.shutdown.finalFlushRounds ∧
      (a.pool.caller.stopping = true → a.pool.caller.left a.pool.rounds ≤ 2 * a.pool.rounds + 4)

variable {config : PipelineConfig} {Q Q' : Process n}

theorem Stops.of_stage (h : Stops config Q) (hcallers : Q'.callers = Q.callers)
    (hstage : Q'.coordinator.stopStage = Q.coordinator.stopStage) : Stops config Q' := by
  have hsame : ∀ a', Q'.coordinator.active = some a' → ∃ a, Q.coordinator.active = some a ∧
      a'.pool.caller = a.pool.caller ∧ a'.pool.rounds = a.pool.rounds := by
    intro a' ha'
    rw [Coordinator.stopStage_of_active ha'] at hstage
    obtain ⟨a, ha, heq⟩ : ∃ a, Q.coordinator.active = some a ∧
        (a.pool.caller, a.pool.rounds) = (a'.pool.caller, a'.pool.rounds) := by
      simpa [Coordinator.stopStage] using hstage.symm
    exact ⟨a, ha, (Prod.mk.inj heq).1.symm, (Prod.mk.inj heq).2.symm⟩
  refine ⟨fun k hk => ?_, fun a' ha' hs => ?_, fun k j hk hj => ?_, fun a' ha' => ?_⟩
  · obtain ⟨a, ha, hs⟩ := h.stopping k (hcallers ▸ hk)
    rw [Coordinator.stopStage_of_active ha] at hstage
    obtain ⟨a', ha', heq⟩ : ∃ a', Q'.coordinator.active = some a' ∧
        (a'.pool.caller, a'.pool.rounds) = (a.pool.caller, a.pool.rounds) := by
      simpa [Coordinator.stopStage] using hstage
    exact ⟨a', ha', (Prod.mk.inj heq).1 ▸ hs⟩
  · obtain ⟨a, ha, hcaller, -⟩ := hsame a' ha'
    obtain ⟨k, hk⟩ := h.stopper a ha (hcaller ▸ hs)
    exact ⟨k, hcallers ▸ hk⟩
  · exact h.single k j (hcallers ▸ hk) (hcallers ▸ hj)
  · obtain ⟨a, ha, hcaller, hrounds⟩ := hsame a' ha'
    rw [hcaller, hrounds]
    exact h.rounds a ha

theorem withCaller_same {k : Nat} {p : Pending} (h : Q.callers k = p) : Q.withCaller k p = Q := by
  cases Q with
  | mk coordinator callers =>
    simp only [withCaller, Process.mk.injEq, true_and]
    funext j
    by_cases hj : j = k
    · rw [if_pos hj, hj, ← h]
    · rw [if_neg hj]

theorem Stops.withCaller (h : Stops config Q) {k : Nat} {p : Pending}
    (hk : Q.callers k ≠ .stopping) (hp : p ≠ .stopping) : Stops config (Q.withCaller k p) := by
  have hother : ∀ j, (Q.withCaller k p).callers j = .stopping → j ≠ k ∧ Q.callers j = .stopping := by
    intro j hj
    by_cases hjk : j = k
    · subst hjk
      rw [withCaller_self] at hj
      exact absurd hj hp
    · exact ⟨hjk, by rwa [withCaller_other _ hjk] at hj⟩
  refine ⟨fun j hj => h.stopping j (hother j hj).2, fun a ha hs => ?_,
    fun j j' hj hj' => h.single j j' (hother j hj).2 (hother j' hj').2, h.rounds⟩
  obtain ⟨j, hj⟩ := h.stopper a ha hs
  have hjk : j ≠ k := fun hjk => hk (hjk ▸ hj)
  exact ⟨j, by rwa [withCaller_other _ hjk]⟩

/-- What a process keeps along every schedule from a stopped coordinator with the configuration
`config`, made on the machine `m₀`: the configuration, the locks it holds, on a machine that keeps
a log's checkpoint the log's files, and the agreement of its callers and its stop. -/
structure Kept (config : PipelineConfig) (m₀ : Machine) (Q : Process n) (w : Machine × σ) :
    Prop where
  configured : Q.coordinator.config = config
  owns : Q.coordinator.Owns m₀ w.1
  anchors : Keeping m₀ → Q.coordinator.Anchors w.1
  stops : Stops config Q

variable {m₀ : Machine} {w w' : Machine × σ}

theorem kept_new (config : PipelineConfig) (recorder : Recorder) (m₀ : Machine) (s₀ : σ) :
    Kept config m₀ (new (Coordinator.new config recorder)) (m₀, s₀) where
  configured := rfl
  owns := Coordinator.owns_new config recorder m₀
  anchors hk := (Coordinator.anchors_of_stopped rfl).2 hk.sound
  stops := ⟨fun _ h => (by cases h), fun _ h => (by cases h), fun _ _ h => (by cases h),
    fun _ h => (by cases h)⟩

theorem Kept.withCaller (h : Kept config m₀ Q w) {k : Nat} {p : Pending}
    (hk : Q.callers k ≠ .stopping) (hp : p ≠ .stopping) : Kept config m₀ (Q.withCaller k p) w :=
  ⟨h.configured, h.owns, h.anchors, h.stops.withCaller hk hp⟩

/-- On a machine that keeps a log's checkpoint, every machine a process reaches keeps its calls
honest and its clock valid. -/
theorem Kept.keeping (h : Kept config m₀ Q w) (htok : TokensBelow m₀) (hk : Keeping m₀) :
    Honest w.1 ∧ ∀ t, (w.1.clock t).Valid := by
  obtain ⟨hfaults, hclock, -⟩ := h.owns.machine htok
  exact ⟨hk.honest.of_faults hfaults, fun t => hclock ▸ hk.clock t⟩

theorem Kept.stepThread (hsave : SinkApart (LogPaths.forLog config.walPath) save)
    (h : Kept config m₀ Q w) {g : Nat} {P : Pool n} (hP : Q.coordinator.pools[g]? = some P)
    {t : Pool.Thread n} (ht : t ≠ .caller) :
    Kept config m₀ { Q with coordinator := (Q.coordinator.stepThread save g P t w).1 }
      (Q.coordinator.stepThread save g P t w).2 where
  configured := (Coordinator.withPool_config g _).trans h.configured
  owns := h.owns.stepThread hsave g P t
  anchors hk := (h.anchors hk).stepThread (h.configured ▸ hsave) g P t
  stops := h.stops.of_stage rfl (Coordinator.stepThread_stopStage hP ht w)

theorem Kept.start (htok : TokensBelow m₀) (h : Kept config m₀ Q w) {r : Except LifecycleError Unit}
    {c' : Coordinator n} (hrun : ((Coordinator.start (σ := σ)).run Q.coordinator).run w = ((r, c'), w')) :
    Kept config m₀ { Q with coordinator := c' } w' := by
  obtain ⟨hconfig, hcases⟩ := Coordinator.start_active hrun
  refine ⟨hconfig.trans h.configured, h.owns.start htok hrun,
    fun hk => ((h.anchors hk).start (h.keeping htok hk).1 (h.keeping htok hk).2 hrun).1, ?_⟩
  rcases hcases with rfl | ⟨hstop, -, log, hlog⟩
  · exact h.stops
  · -- a fresh pool runs, and no caller was stopping
    refine ⟨fun k hk => ?_, fun a ha hs => ?_, h.stops.single, fun a ha => ?_⟩
    · obtain ⟨a, ha, -⟩ := h.stops.stopping k hk
      simp [hstop] at ha
    · simp only [hlog, Option.some.injEq] at ha
      subst ha
      simp [Pool.spawn, Caller.stopping] at hs
    · simp only [hlog, Option.some.injEq] at ha
      subst ha
      refine ⟨h.configured ▸ rfl, fun hs => ?_⟩
      simp [Pool.spawn, Caller.stopping] at hs

theorem Kept.write (h : Kept config m₀ Q w) {r : ChangeRecord} {x : Coordinator.Writing}
    {c' : Coordinator n}
    (hrun : ((Coordinator.write (σ := σ) r).run Q.coordinator).run w = ((x, c'), w')) :
    Kept config m₀ { Q with coordinator := c' } w' :=
  ⟨(Coordinator.write_spec hrun).2.2.1.trans h.configured, h.owns.write hrun,
    fun hk => (h.anchors hk).write hrun,
    h.stops.of_stage rfl (Coordinator.write_stopStage hrun)⟩

/-- A step of the caller stopping the running pool, begun from an idle caller while it runs or
taken by the caller already stopping it. -/
theorem Kept.callerStep (hsave : SinkApart (LogPaths.forLog config.walPath) save)
    (h : Kept config m₀ Q w) {a : Active n} (ha : Q.coordinator.active = some a) {k : Nat}
    (hk : Q.callers k = .idle ∧ a.pool.caller = .running ∨
      Q.callers k = .stopping ∧ ∀ done residue, a.pool.caller ≠ .finished done residue) :
    Kept config m₀
      ({ Q with coordinator := (Q.coordinator.stepThread save Q.coordinator.detached.length a.pool
          .caller w).1 }.withCaller k .stopping)
      (Q.coordinator.stepThread save Q.coordinator.detached.length a.pool .caller w).2 := by
  set P' := (((a.pool.lend Q.coordinator.recorder).step save .caller).run w).1 with hP'
  have hactive : (Q.coordinator.stepThread save Q.coordinator.detached.length a.pool .caller
      w).1.active = some { a with pool := P' } := Coordinator.stepThread_running ha .caller w
  have hnot : ∀ done residue, a.pool.caller ≠ .finished done residue := by
    rcases hk with ⟨-, hrun⟩ | ⟨-, hf⟩
    · intro done residue h'
      rw [hrun] at h'
      cases h'
    · exact hf
  have hleft : P'.caller.left a.pool.rounds + 1 ≤ a.pool.caller.left a.pool.rounds :=
    Pool.callerStep_left save (a.pool.lend Q.coordinator.recorder) hnot w
  have hstopping : P'.caller.stopping = true := by
    cases hc : P'.caller with
    | running => exact absurd hc (Pool.callerStep_spec save (a.pool.lend _) w).1
    | _ => rfl
  have hrounds : P'.rounds = a.pool.rounds := Pool.step_rounds save _ _ w
  -- every caller stopping after the step is `k`
  have honly : ∀ j, Q.callers j = .stopping → j = k := by
    intro j hj
    rcases hk with ⟨-, hrun⟩ | ⟨hk, -⟩
    · obtain ⟨a', ha', hs⟩ := h.stops.stopping j hj
      rw [ha, Option.some.injEq] at ha'
      subst ha'
      simp [hrun, Caller.stopping] at hs
    · exact h.stops.single j k hj hk
  have hnew : ∀ j, ({ Q with coordinator := (Q.coordinator.stepThread save
      Q.coordinator.detached.length a.pool .caller w).1 }.withCaller k .stopping).callers j =
      .stopping → j = k := by
    intro j hj
    by_cases hjk : j = k
    · exact hjk
    · rw [withCaller_other _ hjk] at hj
      exact honly j hj
  refine ⟨(Coordinator.withPool_config _ _).trans h.configured,
    h.owns.stepThread hsave _ _ _,
    fun hkeep => (h.anchors hkeep).stepThread (h.configured ▸ hsave) _ _ _,
    fun j hj => ⟨_, hactive, hstopping⟩, fun _ _ _ => ⟨k, withCaller_self _ _ _⟩,
    fun j j' hj hj' => (hnew j hj).trans (hnew j' hj').symm, fun a' ha' => ?_⟩
  simp only [withCaller_coordinator, hactive, Option.some.injEq] at ha'
  subst ha'
  obtain ⟨hr, hbound⟩ := h.stops.rounds a ha
  refine ⟨hrounds.trans hr, fun _ => ?_⟩
  show P'.caller.left P'.rounds ≤ 2 * P'.rounds + 4
  rw [hrounds]
  rcases hk with ⟨-, hrun⟩ | ⟨hk, -⟩
  · have hfull : Caller.running.left a.pool.rounds = 2 * a.pool.rounds + 5 := rfl
    rw [hrun, hfull] at hleft
    omega
  · obtain ⟨a', ha', hs⟩ := h.stops.stopping k hk
    rw [ha, Option.some.injEq] at ha'
    subst ha'
    have := hbound hs
    omega

/-- The last step of a stop closes the log and lets its caller go. -/
theorem Kept.stopEnd (h : Kept config m₀ Q w) {k : Nat} (hk : Q.callers k = .stopping)
    {a : Active n} (ha : Q.coordinator.active = some a) :
    Kept config m₀ ({ Q with coordinator := Q.coordinator.detach a.pool }.withCaller k .idle)
      (((DurableLog.runLog DurableLog.close a.log).run w.1).2, w.2) := by
  have hnone : ∀ j, ({ Q with coordinator := Q.coordinator.detach a.pool }.withCaller k
      .idle).callers j ≠ .stopping := by
    intro j hj
    by_cases hjk : j = k
    · subst hjk
      rw [withCaller_self] at hj
      cases hj
    · rw [withCaller_other _ hjk] at hj
      exact hjk (h.stops.single j k hj hk)
  refine ⟨h.configured, (Coordinator.owns_of_stopped rfl).2 (h.owns.close ha),
    fun hkeep => (Coordinator.anchors_of_stopped rfl).2 ((h.anchors hkeep).close ha).1,
    fun j hj => absurd hj (hnone j), fun _ h' => (by cases h'),
    fun j _ hj _ => absurd hj (hnone j), fun _ h' => (by cases h')⟩

/-- Every event keeps what a process keeps. -/
theorem Kept.step (htok : TokensBelow m₀) (hsave : SinkApart (LogPaths.forLog config.walPath) save)
    (h : Kept config m₀ Q w) {e : Event} {notes : List (Note n)}
    (ht : Takes save e Q w notes Q' w') : Kept config m₀ Q' w' := by
  cases ht with
  | skip => exact h
  | answer k a hk ha => exact h
  | start k hk hrun => exact h.start htok hrun
  | beginStop k hk ha hrun => exact h.callerStep hsave ha (.inl ⟨hk, hrun⟩)
  | logAnswered k hk hrun => exact h.write hrun
  | logWritten k hk hrun => exact (h.write hrun).withCaller (by simp [hk]) (by simp)
  | offer k hk hP => exact (h.stepThread hsave hP (by simp)).withCaller (by simp [hk]) (by simp)
  | offerLost k hk hP => exact h.withCaller (by simp [hk]) (by simp)
  | stopStep k hk ha hf =>
    have h' := h.callerStep hsave ha (.inr ⟨hk, hf⟩)
    rwa [withCaller_same (by exact hk)] at h'
  | stopEnd k hk ha hf => exact h.stopEnd hk ha
  | stopGone k hk ha =>
    obtain ⟨a, ha', -⟩ := h.stops.stopping k hk
    simp [ha] at ha'
  | worker g i hi hP => exact h.stepThread hsave hP (by simp)
  | flusher g hP => exact h.stepThread hsave hP (by simp)

/-- Every schedule keeps what a process keeps. -/
theorem Kept.run (htok : TokensBelow m₀) (hsave : SinkApart (LogPaths.forLog config.walPath) save)
    (events : List Event) (h : Kept config m₀ Q w) {notes : List (Note n)}
    (hrun : ((run save events).run Q).run w = ((notes, Q'), w')) : Kept config m₀ Q' w' :=
  Takes.run_keeps save (Kept config m₀) (fun hinv ht => hinv.step htok hsave ht) events h hrun

end Process

/-! ## The laws of the lifecycle -/

namespace Coordinator

variable {n : Nat} {c : Coordinator n}

theorem withPool_checkpoint (g : Nat) (P : Pool n) : (c.withPool g P).checkpoint = c.checkpoint := by
  have h := congrArg (Option.map (·.checkpoint)) (withPool_log (c := c) g P)
  simpa [checkpoint, Option.map_map, Function.comp_def] using h

theorem phase_of_active {a : Active n} (ha : c.active = some a) :
    c.phase = if a.pool.caller.stopping then .stopping else .running := by
  simp [phase, ha]

theorem phase_eq_stopped_iff : c.phase = .stopped ↔ c.active = none := by
  cases ha : c.active with
  | none => simp [phase, ha]
  | some a =>
    rw [phase_of_active ha]
    split <;> simp

theorem phase_eq_running_iff :
    c.phase = .running ↔ ∃ a, c.active = some a ∧ a.pool.caller = .running := by
  cases ha : c.active with
  | none => simp [phase, ha]
  | some a =>
    rw [phase_of_active ha]
    cases hc : a.pool.caller <;> simp [hc, Caller.stopping]

end Coordinator

namespace Process

variable {n : Nat} {σ : Type} (save : List ChangeRecord → World σ SaveOutcome)
  {Q : Process n} {w : Machine × σ} {k : Nat}

theorem step_start (hk : Q.callers k = .idle) :
    ((step save (.call k .start)).run Q).run w =
      (([.answered k (.started (((Coordinator.start (σ := σ)).run Q.coordinator).run w).1.1)],
        { Q with coordinator := (((Coordinator.start (σ := σ)).run Q.coordinator).run w).1.2 }),
        (((Coordinator.start (σ := σ)).run Q.coordinator).run w).2) := by
  simp only [step, run_bind, get_run, hk, begin, coordinate_run, pure_run]

theorem step_stop_of_not_running (hk : Q.callers k = .idle)
    (hphase : Q.coordinator.phase ≠ .running) :
    ((step save (.call k .stop)).run Q).run w = (([.answered k (.stopped {})], Q), w) := by
  simp only [step, run_bind, get_run, hk, begin, coordinate_run]
  cases ha : Q.coordinator.active with
  | none =>
    rw [Coordinator.beginStop_of_stopped save ha]
    rfl
  | some a =>
    have hs : a.pool.caller.stopping = true := by
      by_contra hs
      apply hphase
      rw [Coordinator.phase_of_active ha, if_neg hs]
    rw [Coordinator.beginStop_of_stopping save ha hs]
    rfl

theorem step_stop_of_running (hk : Q.callers k = .idle) {a : Active n}
    (ha : Q.coordinator.active = some a) (hrun : a.pool.caller = .running) :
    ((step save (.call k .stop)).run Q).run w =
      (([], { Q with coordinator := (Q.coordinator.stepThread save Q.coordinator.detached.length
          a.pool .caller w).1 }.withCaller k .stopping),
        (Q.coordinator.stepThread save Q.coordinator.detached.length a.pool .caller w).2) := by
  simp only [step, run_bind, get_run, hk, begin, coordinate_run]
  rw [Coordinator.beginStop_of_running save ha hrun]
  rfl

theorem step_resume_unfinished (hk : Q.callers k = .stopping) {a : Active n}
    (ha : Q.coordinator.active = some a)
    (hf : ∀ done residue, a.pool.caller ≠ .finished done residue) :
    ((step save (.resume k)).run Q).run w =
      ((joinNote Q.coordinator, { Q with coordinator := (Q.coordinator.stepThread save
          Q.coordinator.detached.length a.pool .caller w).1 }),
        (Q.coordinator.stepThread save Q.coordinator.detached.length a.pool .caller w).2) := by
  simp only [step, resume, run_bind, get_run, hk, coordinate_run]
  rw [Coordinator.stopStep_of_unfinished save ha hf]
  rfl

theorem step_resume_finished (hk : Q.callers k = .stopping) {a : Active n}
    (ha : Q.coordinator.active = some a) {done : ShutdownReport} {residue : List ChangeRecord}
    (hf : a.pool.caller = .finished done residue) :
    (((step save (.resume k)).run Q).run w).1.1 = [.answered k (.stopped done)] := by
  simp only [step, resume, run_bind, get_run, hk, coordinate_run]
  rw [Coordinator.stopStep_of_finished save ha hf]
  simp only [joinNote, ha, hf, List.nil_append]
  rfl

theorem answered_not_mem_joinNote (c : Coordinator n) (a : Answer) :
    Note.answered k a ∉ joinNote c := by
  unfold joinNote
  split
  · split <;> simp
  · simp

variable {save} {config : PipelineConfig} {m₀ : Machine} {Q' : Process n} {w' : Machine × σ}

theorem Kept.between (h : Kept config m₀ Q w) (hidle : ∀ k, Q.callers k = .idle) :
    Q.coordinator.phase = .stopped ∨ Q.coordinator.phase = .running := by
  cases ha : Q.coordinator.active with
  | none => exact .inl (Coordinator.phase_eq_stopped_iff.2 ha)
  | some a =>
    right
    rw [Coordinator.phase_of_active ha, if_neg]
    intro hs
    obtain ⟨k, hk⟩ := h.stops.stopper a ha hs
    rw [hidle k] at hk
    cases hk

theorem Kept.running_iff (h : Kept config m₀ Q w) :
    Q.coordinator.phase = .running ↔ ∃ a lk, Q.coordinator.active = some a ∧
      a.pool.caller = .running ∧ a.log.lock = some lk ∧ lk.key ∈ w.1.held ∧
        (lk.inode, lk.token) ∈ w.1.disk.locks := by
  rw [Coordinator.phase_eq_running_iff]
  constructor
  · rintro ⟨a, ha, hrun⟩
    obtain ⟨lk, hlk, hheld, hlock⟩ := h.owns.lock_held ha
    exact ⟨a, lk, ha, hrun, hlk, hheld, hlock⟩
  · rintro ⟨a, -, ha, hrun, -⟩
    exact ⟨a, ha, hrun⟩

theorem Kept.stopped_locks (h : Kept config m₀ Q w) (hstop : Q.coordinator.phase = .stopped) :
    w.1.held = m₀.held ∧ w.1.disk.locks = m₀.disk.locks := by
  have hs := (Coordinator.owns_of_stopped (Coordinator.phase_eq_stopped_iff.1 hstop)).1 h.owns
  exact ⟨hs.held, hs.disk.locks⟩

/-- A start refuses a coordinator that is not stopped and changes nothing; it runs a stopped one,
or leaves it stopped, with the locks as they were, when its configuration, the open of its log or
the start of its threads fails. -/
theorem Kept.start_law (htok : TokensBelow m₀) (h : Kept config m₀ Q w)
    (hk : Q.callers k = .idle) {notes : List (Note n)}
    (hrun : ((Process.step save (.call k .start)).run Q).run w = ((notes, Q'), w')) :
    ∃ r, notes = [.answered k (.started r)] ∧
      (Q.coordinator.phase ≠ .stopped →
        r = .error (.alreadyStarted Q.coordinator.phase) ∧ Q' = Q ∧ w' = w) ∧
      (Q.coordinator.phase = .stopped → (r = .ok () ∧ Q'.coordinator.phase = .running) ∨
        (((∃ e, r = .error (.config e)) ∨ (∃ e, r = .error (.init e)) ∨
            ∃ name e, r = .error (.spawn name e)) ∧
          Q' = Q ∧ w'.1.held = w.1.held ∧ w'.1.disk.locks = w.1.disk.locks)) := by
  rw [step_start save hk] at hrun
  rcases hstart : ((Coordinator.start (σ := σ)).run Q.coordinator).run w with ⟨⟨r, c'⟩, w1⟩
  rw [hstart] at hrun
  cases hrun
  have h' : Kept config m₀ { Q with coordinator := c' } w1 := h.start htok hstart
  refine ⟨r, rfl, fun hphase => ?_, fun hphase => ?_⟩
  · rcases Coordinator.start_cases hstart with ⟨-, hr, rfl, rfl⟩ | ⟨hstop, -⟩ | ⟨hstop, -⟩
    · exact ⟨hr, rfl, rfl⟩
    · exact absurd (Coordinator.phase_eq_stopped_iff.2 hstop) hphase
    · exact absurd (Coordinator.phase_eq_stopped_iff.2 hstop) hphase
  · have hstop := Coordinator.phase_eq_stopped_iff.1 hphase
    have hlocks : c' = Q.coordinator → w1.1.held = w.1.held ∧ w1.1.disk.locks = w.1.disk.locks := by
      intro hc
      have hl := h.stopped_locks hphase
      have hl' := h'.stopped_locks (by rw [hc]; exact hphase)
      exact ⟨hl'.1.trans hl.1.symm, hl'.2.trans hl.2.symm⟩
    rcases Coordinator.start_cases hstart with ⟨hsome, -⟩ | ⟨-, e, -, hr, hc, -⟩ |
      ⟨-, -, opened, m1, -, ⟨e, -, hr, hc, -⟩ |
        ⟨log, spawned, m2, -, -, ⟨name, e, -, hr, hc, -⟩ | ⟨-, hr, -, hc⟩⟩⟩
    · simp [hstop] at hsome
    · exact .inr ⟨.inl ⟨e, hr⟩, by rw [hc], hlocks hc⟩
    · exact .inr ⟨.inr (.inl ⟨e, hr⟩), by rw [hc], hlocks hc⟩
    · exact .inr ⟨.inr (.inr ⟨name, e, hr⟩), by rw [hc], hlocks hc⟩
    · exact .inl ⟨hr, Coordinator.phase_eq_running_iff.2 ⟨_, by rw [hc], rfl⟩⟩

/-- A stop of a running coordinator takes the first step of its caller, which begins the pool's
stop. -/
theorem Kept.stop_begins (hk : Q.callers k = .idle) (hphase : Q.coordinator.phase = .running)
    {notes : List (Note n)}
    (hrun : ((Process.step save (.call k .stop)).run Q).run w = ((notes, Q'), w')) :
    notes = [] ∧ Q'.callers k = .stopping ∧ Q'.coordinator.phase = .stopping := by
  obtain ⟨a, ha, hr⟩ := Coordinator.phase_eq_running_iff.1 hphase
  rw [step_stop_of_running save hk ha hr] at hrun
  cases hrun
  refine ⟨rfl, withCaller_self _ _ _, ?_⟩
  rw [withCaller_coordinator, Coordinator.phase_of_active (Coordinator.stepThread_running ha _ w)]
  exact if_pos (Caller.stopping_of_ne (Pool.callerStep_spec save _ w).1)

/-- A step of a stopping caller that answers is the stop's last: the running pool's caller had
finished, and the log is closed. -/
theorem Kept.answered_stopEnd (h : Kept config m₀ Q w) (hk : Q.callers k = .stopping)
    {notes : List (Note n)} (ht : Takes save (.resume k) Q w notes Q' w') {r : ShutdownReport}
    (hans : .answered k (.stopped r) ∈ notes) :
    ∃ a, Q.coordinator.active = some a ∧ Q'.coordinator.active = none ∧
      w' = (((DurableLog.runLog DurableLog.close a.log).run w.1).2, w.2) := by
  cases ht with
  | skip => simp at hans
  | answer k' a hk' ha =>
    obtain ⟨rfl, -⟩ := by simpa using hans
    rw [hk] at hk'
    cases hk'
  | offer k' hk' hP =>
    rw [hk] at hk'
    cases hk'
  | offerLost k' hk' hP =>
    rw [hk] at hk'
    cases hk'
  | stopStep k' hk' ha hf => exact absurd hans (answered_not_mem_joinNote _ _)
  | stopEnd k' hk' ha hf => exact ⟨_, ha, rfl, rfl⟩
  | stopGone k' hk' ha =>
    obtain ⟨a, ha', -⟩ := h.stops.stopping k hk
    simp [ha] at ha'

/-- The step of a stop that answers leaves the coordinator stopped and the process holding the
locks it held on `m₀`. -/
theorem Kept.stop_ends (htok : TokensBelow m₀)
    (hsave : SinkApart (LogPaths.forLog config.walPath) save) (h : Kept config m₀ Q w)
    (hk : Q.callers k = .stopping) {notes : List (Note n)}
    (hrun : ((Process.step save (.resume k)).run Q).run w = ((notes, Q'), w')) {r : ShutdownReport}
    (hans : .answered k (.stopped r) ∈ notes) :
    Q'.coordinator.phase = .stopped ∧ w'.1.held = m₀.held ∧ w'.1.disk.locks = m₀.disk.locks := by
  have ht := Takes.of_step save hrun
  obtain ⟨-, -, hstop, -⟩ := h.answered_stopEnd hk ht hans
  have hphase := Coordinator.phase_eq_stopped_iff.2 hstop
  exact ⟨hphase, (h.step htok hsave ht).stopped_locks hphase⟩

/-- Only a log call moves the running log's checkpoint: every other event keeps it, unless it
ends the stop. -/
theorem Takes.checkpoint_of_not_log {e : Event} {notes : List (Note n)}
    (ht : Takes save e Q w notes Q' w') (he : ∀ j r, e ≠ .call j (.log r))
    (hphase : Q.coordinator.phase ≠ .stopped) :
    Q'.coordinator.active = none ∨ Q'.coordinator.checkpoint = Q.coordinator.checkpoint := by
  cases ht with
  | skip => exact .inr rfl
  | answer => exact .inr rfl
  | start k hk hrun =>
    rcases (Coordinator.start_active hrun).2 with hc | ⟨hstop, -⟩
    · exact .inr (by rw [hc])
    · exact absurd (Coordinator.phase_eq_stopped_iff.2 hstop) hphase
  | beginStop k hk ha hrun => exact .inr (Coordinator.withPool_checkpoint _ _)
  | logAnswered k hk hrun => exact absurd rfl (he _ _)
  | logWritten k hk hrun => exact absurd rfl (he _ _)
  | offer k hk hP => exact .inr (Coordinator.withPool_checkpoint _ _)
  | offerLost k hk hP => exact .inr rfl
  | stopStep k hk ha hf => exact .inr (Coordinator.withPool_checkpoint _ _)
  | stopEnd k hk ha hf => exact .inl rfl
  | stopGone k hk ha => exact .inr rfl
  | worker g i hi hP => exact .inr (Coordinator.withPool_checkpoint _ _)
  | flusher g hP => exact .inr (Coordinator.withPool_checkpoint _ _)

/-- An event that is not a step of the stopping caller `k` leaves it stopping and the stop of the
running pool where it was. -/
theorem Kept.stage_of_other (h : Kept config m₀ Q w) (hk : Q.callers k = .stopping) {e : Event}
    (he : e.resumes k = false) {notes : List (Note n)} (ht : Takes save e Q w notes Q' w') :
    Q'.callers k = .stopping ∧ Q'.coordinator.stopStage = Q.coordinator.stopStage := by
  obtain ⟨a, ha, hs⟩ := h.stops.stopping k hk
  have hidle : ∀ j, Q.callers j = .idle → k ≠ j := fun j hj hkj => by
    rw [← hkj, hk] at hj
    cases hj
  cases ht with
  | skip => exact ⟨hk, rfl⟩
  | answer => exact ⟨hk, rfl⟩
  | start j hj hrun =>
    rcases (Coordinator.start_active hrun).2 with hc | ⟨hstop, -⟩
    · exact ⟨hk, by rw [hc]⟩
    · simp [ha] at hstop
  | beginStop j hj ha' hrun =>
    rw [ha, Option.some.injEq] at ha'
    subst ha'
    simp [hrun, Caller.stopping] at hs
  | logAnswered j hj hrun => exact ⟨hk, Coordinator.write_stopStage hrun⟩
  | logWritten j hj hrun =>
    exact ⟨by rw [withCaller_other _ (hidle j hj)]; exact hk, Coordinator.write_stopStage hrun⟩
  | offer j hj hP =>
    have hkj : k ≠ j := fun hkj => by
      rw [← hkj, hk] at hj
      cases hj
    exact ⟨by rw [withCaller_other _ hkj]; exact hk,
      Coordinator.stepThread_stopStage hP (by simp) w⟩
  | offerLost j hj hP =>
    have hkj : k ≠ j := fun hkj => by
      rw [← hkj, hk] at hj
      cases hj
    exact ⟨by rw [withCaller_other _ hkj]; exact hk, rfl⟩
  | stopStep j hj ha' hf => simp [Event.resumes, h.stops.single j k hj hk] at he
  | stopEnd j hj ha' hf => simp [Event.resumes, h.stops.single j k hj hk] at he
  | stopGone j hj ha' => simp [Event.resumes, h.stops.single j k hj hk] at he
  | worker g i hi hP => exact ⟨hk, Coordinator.stepThread_stopStage hP (by simp) w⟩
  | flusher g hP => exact ⟨hk, Coordinator.stepThread_stopStage hP (by simp) w⟩

/-- A stop under way answers once its caller has taken more steps than its pool's caller has
stages left, whatever else the schedule runs between them. -/
theorem Kept.stop_answers (htok : TokensBelow m₀)
    (hsave : SinkApart (LogPaths.forLog config.walPath) save) :
    ∀ (events : List Event) {Q : Process n} {w : Machine × σ}, Kept config m₀ Q w →
      Q.callers k = .stopping →
      (∀ a, Q.coordinator.active = some a →
        a.pool.caller.left a.pool.rounds < events.countP (Event.resumes k)) →
      ∃ r, .answered k (.stopped r) ∈ (((Process.run save events).run Q).run w).1.1
  | [], Q, w, h, hk, hlt => by
    obtain ⟨a, ha, -⟩ := h.stops.stopping k hk
    exact absurd (hlt a ha) (Nat.not_lt_zero _)
  | e :: events, Q, w, h, hk, hlt => by
    obtain ⟨a, ha, -⟩ := h.stops.stopping k hk
    have hcount := hlt a ha
    rw [List.countP_cons] at hcount
    rcases hfirst : ((Process.step save e).run Q).run w with ⟨⟨notes₁, Q₁⟩, w₁⟩
    rw [run_cons, hfirst]
    by_cases hans : ∃ r, Note.answered k (.stopped r) ∈ notes₁
    · obtain ⟨r, hr⟩ := hans
      exact ⟨r, List.mem_append_left _ hr⟩
    -- otherwise the caller still stops, with a stage fewer left when the event was its step
    have hnext : Q₁.callers k = .stopping ∧ ∀ a₁, Q₁.coordinator.active = some a₁ →
        a₁.pool.caller.left a₁.pool.rounds < events.countP (Event.resumes k) := by
      cases hres : e.resumes k with
      | false =>
        obtain ⟨hk₁, hstage⟩ := h.stage_of_other hk hres (Takes.of_step save hfirst)
        refine ⟨hk₁, fun a₁ ha₁ => ?_⟩
        rw [Coordinator.stopStage_of_active ha₁, Coordinator.stopStage_of_active ha,
          Option.some.injEq, Prod.mk.injEq] at hstage
        rw [hstage.1, hstage.2]
        simpa [hres] using hcount
      | true =>
        obtain rfl := Event.eq_of_resumes hres
        by_cases hf : ∃ done residue, a.pool.caller = .finished done residue
        · obtain ⟨done, residue, hf⟩ := hf
          have hnotes : notes₁ = [.answered k (.stopped done)] := by
            have hstep := step_resume_finished save hk ha hf (w := w)
            rwa [hfirst] at hstep
          exact absurd ⟨done, by rw [hnotes]; exact List.mem_singleton_self _⟩ hans
        · simp only [not_exists] at hf
          rw [step_resume_unfinished save hk ha hf] at hfirst
          cases hfirst
          refine ⟨hk, fun a₁ ha₁ => ?_⟩
          rw [Coordinator.stepThread_running ha _ w, Option.some.injEq] at ha₁
          subst ha₁
          have hleft := Pool.callerStep_left save (a.pool.lend Q.coordinator.recorder) hf w
          have hrounds := Pool.step_rounds save (a.pool.lend Q.coordinator.recorder) .caller w
          simp only [hres, if_true] at hcount
          show (((a.pool.lend Q.coordinator.recorder).step save .caller).run w).1.caller.left
            (((a.pool.lend Q.coordinator.recorder).step save .caller).run w).1.rounds < _
          rw [hrounds]
          exact Nat.lt_of_add_lt_add_right (Nat.lt_of_le_of_lt hleft hcount)
    obtain ⟨r, hr⟩ := Kept.stop_answers htok hsave events
      (h.step htok hsave (Takes.of_step save hfirst)) hnext.1 hnext.2
    exact ⟨r, List.mem_append_right _ hr⟩

/-- While the coordinator is stopped, every event that starts nothing successfully leaves it
stopped and a checkpoint stored in its log's place stored. -/
theorem Kept.stays_stopped (htok : TokensBelow m₀) (hkeep : Keeping m₀)
    (hsave : SinkApart (LogPaths.forLog config.walPath) save) (h : Kept config m₀ Q w)
    (hstop : Q.coordinator.active = none) {ck : Checkpoint} (hpos : ck.position ≤ maxPosition)
    (hck : Stored (LogPaths.forLog config.walPath) ck w.1.disk) {e : Event}
    {notes : List (Note n)} (ht : Takes save e Q w notes Q' w')
    (hnone : ∀ j, Note.answered j (.started (.ok ())) ∉ notes) :
    Q'.coordinator.active = none ∧ Stored (LogPaths.forLog config.walPath) ck w'.1.disk := by
  have hsound : w.1.disk.Sound := (Coordinator.anchors_of_stopped hstop).1 (h.anchors hkeep)
  have hthread : ∀ g P t, Q.coordinator.pools[g]? = some P →
      (Q.coordinator.stepThread save g P t w).1.active = none ∧
        Stored (LogPaths.forLog config.walPath) ck (Q.coordinator.stepThread save g P t w).2.1.disk := by
    intro g P t hP
    refine ⟨?_, (Coordinator.stepThread_leaves hsave g P t w).stored hsound hck⟩
    rcases Coordinator.withPool_active hP (((P.lend Q.coordinator.recorder).step save t).run w).1
      with ha | ⟨a, ha, -⟩
    · exact ha.trans hstop
    · simp [hstop] at ha
  cases ht with
  | skip => exact ⟨hstop, hck⟩
  | answer => exact ⟨hstop, hck⟩
  | start j hj hrun =>
    obtain ⟨hh, hclock⟩ := h.keeping htok hkeep
    have hstart := ((h.anchors hkeep).start hh hclock hrun).2 ck hstop hpos
      (h.configured ▸ hck)
    rcases (Coordinator.start_active hrun).2 with hc | ⟨-, hr, -⟩
    · exact ⟨by rw [hc]; exact hstop, h.configured ▸ hstart.1⟩
    · exact (hnone j (by rw [hr]; exact List.mem_singleton_self _)).elim
  | beginStop j hj ha => simp [hstop] at ha
  | logAnswered j hj hrun =>
    rcases Coordinator.write_cases hrun with ⟨-, -, rfl, rfl⟩ | ⟨-, -, -, rfl, rfl⟩ |
      ⟨-, a, -, -, -, ha, -⟩
    · exact ⟨hstop, hck⟩
    · exact ⟨hstop, hck⟩
    · simp [hstop] at ha
  | logWritten j hj hrun =>
    rcases Coordinator.write_cases hrun with ⟨-, hx, -⟩ | ⟨-, -, hx, -⟩ | ⟨-, a, -, -, -, ha, -⟩
    · cases hx
    · cases hx
    · simp [hstop] at ha
  | offer j hj hP => exact hthread _ _ _ hP
  | offerLost j hj hP => exact ⟨hstop, hck⟩
  | stopStep j hj ha => simp [hstop] at ha
  | stopEnd j hj ha => simp [hstop] at ha
  | stopGone j hj ha => exact ⟨hstop, hck⟩
  | worker g i hi hP => exact hthread _ _ _ hP
  | flusher g hP => exact hthread _ _ _ hP

/-- Along a schedule in which no start succeeds, a stopped coordinator stays stopped and a
checkpoint stored in its log's place stays stored. -/
theorem Kept.run_stays_stopped (htok : TokensBelow m₀) (hkeep : Keeping m₀)
    (hsave : SinkApart (LogPaths.forLog config.walPath) save) {ck : Checkpoint}
    (hpos : ck.position ≤ maxPosition) :
    ∀ (events : List Event) {Q : Process n} {w : Machine × σ}, Kept config m₀ Q w →
      Q.coordinator.active = none → Stored (LogPaths.forLog config.walPath) ck w.1.disk →
      (∀ j, Note.answered j (.started (.ok ())) ∉ (((Process.run save events).run Q).run w).1.1) →
      (((Process.run save events).run Q).run w).1.2.coordinator.active = none ∧
        Stored (LogPaths.forLog config.walPath) ck (((Process.run save events).run Q).run w).2.1.disk
  | [], _, _, _, hstop, hck, _ => ⟨hstop, hck⟩
  | e :: events, Q, w, h, hstop, hck, hnone => by
    rcases hfirst : ((Process.step save e).run Q).run w with ⟨⟨notes₁, Q₁⟩, w₁⟩
    rw [run_cons, hfirst] at hnone ⊢
    have ht := Takes.of_step save hfirst
    obtain ⟨hstop₁, hck₁⟩ := h.stays_stopped htok hkeep hsave hstop hpos hck ht
      (fun j hj => hnone j (List.mem_append_left _ hj))
    exact Kept.run_stays_stopped htok hkeep hsave hpos events (h.step htok hsave ht) hstop₁ hck₁
      (fun j hj => hnone j (List.mem_append_right _ hj))

/-- After a stop ends, the first start that succeeds opens the log at the checkpoint the stop
closed it at, whatever runs in between. -/
theorem Kept.restart (htok : TokensBelow m₀) (hkeep : Keeping m₀)
    (hsave : SinkApart (LogPaths.forLog config.walPath) save) (h : Kept config m₀ Q w)
    (hk : Q.callers k = .stopping) {notes : List (Note n)}
    (hrun : ((Process.step save (.resume k)).run Q).run w = ((notes, Q'), w')) {r : ShutdownReport}
    (hans : .answered k (.stopped r) ∈ notes) {ck : Checkpoint}
    (hck : Q.coordinator.checkpoint = some ck) (hpos : ck.position ≤ maxPosition)
    (events : List Event) {notes₂ : List (Note n)} {Q₂ : Process n} {w₂ : Machine × σ}
    (hrun₂ : ((Process.run save events).run Q').run w' = ((notes₂, Q₂), w₂))
    (hnone₂ : ∀ j, Note.answered j (.started (.ok ())) ∉ notes₂) {j : Nat}
    {notes₃ : List (Note n)} {Q₃ : Process n} {w₃ : Machine × σ}
    (hrun₃ : ((Process.step save (.call j .start)).run Q₂).run w₂ = ((notes₃, Q₃), w₃))
    (hok : .answered j (.started (.ok ())) ∈ notes₃) :
    Q₃.coordinator.checkpoint = some ck := by
  have ht := Takes.of_step save hrun
  have h' := h.step htok hsave ht
  obtain ⟨a, ha, hstop, rfl⟩ := h.answered_stopEnd hk ht hans
  have hclosed := ((h.anchors hkeep).close ha).2
  rw [h.configured, show a.log.checkpoint = ck by simpa [Coordinator.checkpoint, ha] using hck]
    at hclosed
  -- no start succeeds in between, so the coordinator stays stopped and the checkpoint stored
  have hmid := h'.run_stays_stopped htok hkeep hsave hpos events hstop hclosed
    (by rw [hrun₂]; exact hnone₂)
  rw [hrun₂] at hmid
  have h₂ := Kept.run htok hsave events h' hrun₂
  cases Takes.of_step save hrun₃ with
  | skip => simp at hok
  | answer j' a' hj' ha' =>
    obtain ⟨-, rfl⟩ := by simpa using hok
    simp at ha'
  | start j' hj' hstart =>
    obtain ⟨hh, hclock⟩ := h₂.keeping htok hkeep
    simp only [List.mem_singleton, Note.answered.injEq, Answer.started.injEq] at hok
    exact (((h₂.anchors hkeep).start hh hclock hstart).2 ck hmid.1 hpos
      (h₂.configured ▸ hmid.2)).2 hok.2.symm

/-! ## Every schedule -/

/-- The laws of a coordinator's lifecycle at the process `Q` on the world `w`, reached from a
stopped coordinator made on the machine `m₀`, for every call and step that can come next. -/
structure Lifecycle (save : List ChangeRecord → World σ SaveOutcome) (m₀ : Machine)
    (Q : Process n) (w : Machine × σ) : Prop where
  between : (∀ k, Q.callers k = .idle) →
    Q.coordinator.phase = .stopped ∨ Q.coordinator.phase = .running
  running_iff : Q.coordinator.phase = .running ↔ ∃ a lk, Q.coordinator.active = some a ∧
    a.pool.caller = .running ∧ a.log.lock = some lk ∧ lk.key ∈ w.1.held ∧
      (lk.inode, lk.token) ∈ w.1.disk.locks
  stopped_locks : Q.coordinator.phase = .stopped →
    w.1.held = m₀.held ∧ w.1.disk.locks = m₀.disk.locks
  start : ∀ k notes Q' w', Q.callers k = .idle →
    ((Process.step save (.call k .start)).run Q).run w = ((notes, Q'), w') →
    ∃ r, notes = [.answered k (.started r)] ∧
      (Q.coordinator.phase ≠ .stopped →
        r = .error (.alreadyStarted Q.coordinator.phase) ∧ Q' = Q ∧ w' = w) ∧
      (Q.coordinator.phase = .stopped → (r = .ok () ∧ Q'.coordinator.phase = .running) ∨
        (((∃ e, r = .error (.config e)) ∨ (∃ e, r = .error (.init e)) ∨
            ∃ name e, r = .error (.spawn name e)) ∧
          Q' = Q ∧ w'.1.held = w.1.held ∧ w'.1.disk.locks = w.1.disk.locks))
  stop_idle : ∀ k, Q.callers k = .idle → Q.coordinator.phase ≠ .running →
    ((Process.step save (.call k .stop)).run Q).run w = (([.answered k (.stopped {})], Q), w)
  stop_begins : ∀ k notes Q' w', Q.callers k = .idle → Q.coordinator.phase = .running →
    ((Process.step save (.call k .stop)).run Q).run w = ((notes, Q'), w') →
    notes = [] ∧ Q'.callers k = .stopping ∧ Q'.coordinator.phase = .stopping
  stop_ends : ∀ k notes Q' w' r, Q.callers k = .stopping →
    ((Process.step save (.resume k)).run Q).run w = ((notes, Q'), w') →
    .answered k (.stopped r) ∈ notes →
    Q'.coordinator.phase = .stopped ∧ w'.1.held = m₀.held ∧ w'.1.disk.locks = m₀.disk.locks
  stop_finishes : ∀ k (events : List Event), Q.callers k = .stopping →
    2 * Q.coordinator.config.shutdown.finalFlushRounds + 5 ≤ events.countP (Event.resumes k) →
    ∃ r, .answered k (.stopped r) ∈ (((Process.run save events).run Q).run w).1.1
  checkpoint_kept : ∀ e notes Q' w', (∀ j r, e ≠ .call j (.log r)) →
    Q.coordinator.phase ≠ .stopped →
    ((Process.step save e).run Q).run w = ((notes, Q'), w') →
    Q'.coordinator.active = none ∨ Q'.coordinator.checkpoint = Q.coordinator.checkpoint
  restart : Keeping m₀ → ∀ k notes Q' w' r ck, Q.callers k = .stopping →
    Q.coordinator.checkpoint = some ck → ck.position ≤ maxPosition →
    ((Process.step save (.resume k)).run Q).run w = ((notes, Q'), w') →
    .answered k (.stopped r) ∈ notes →
    ∀ events notes₂ Q₂ w₂, ((Process.run save events).run Q').run w' = ((notes₂, Q₂), w₂) →
    (∀ j, .answered j (.started (.ok ())) ∉ notes₂) →
    ∀ j notes₃ Q₃ w₃, ((Process.step save (.call j .start)).run Q₂).run w₂ = ((notes₃, Q₃), w₃) →
    .answered j (.started (.ok ())) ∈ notes₃ → Q₃.coordinator.checkpoint = some ck

theorem Kept.lifecycle (htok : TokensBelow m₀)
    (hsave : SinkApart (LogPaths.forLog config.walPath) save) (h : Kept config m₀ Q w) :
    Lifecycle save m₀ Q w where
  between := h.between
  running_iff := h.running_iff
  stopped_locks := h.stopped_locks
  start _ _ _ _ hk hrun := h.start_law htok hk hrun
  stop_idle _ hk hphase := step_stop_of_not_running save hk hphase
  stop_begins _ _ _ _ hk hphase hrun := Kept.stop_begins hk hphase hrun
  stop_ends _ _ _ _ _ hk hrun hans := h.stop_ends htok hsave hk hrun hans
  stop_finishes k events hk hcount := by
    refine Kept.stop_answers htok hsave events h hk fun a ha => ?_
    obtain ⟨a', ha', hs⟩ := h.stops.stopping k hk
    obtain rfl : a = a' := Option.some.inj (ha.symm.trans ha')
    obtain ⟨hr, hbound⟩ := h.stops.rounds _ ha'
    have hleft := hbound hs
    rw [h.configured, ← hr] at hcount
    omega
  checkpoint_kept _ _ _ _ he hphase hrun :=
    (Takes.of_step save hrun).checkpoint_of_not_log he hphase
  restart hkeep _ _ _ _ _ _ hk hck hpos hrun hans events _ _ _ hrun₂ hnone₂ _ _ _ _ hrun₃ hok :=
    h.restart htok hkeep hsave hk hrun hans hck hpos events hrun₂ hnone₂ hrun₃ hok

/-- From a stopped coordinator with any configuration, made on any machine, every schedule of
calls and thread steps reaches a process that obeys the laws of the lifecycle, whatever calls of
the machine fail, as long as the sink leaves the log alone. -/
theorem schedule_keepsLifecycle (config : PipelineConfig) (recorder : Recorder) {m₀ : Machine}
    (s₀ : σ) (htok : TokensBelow m₀) (hsave : SinkApart (LogPaths.forLog config.walPath) save)
    (events : List Event) {notes : List (Note config.workerThreads)}
    {Q : Process config.workerThreads} {w : Machine × σ}
    (hrun : ((Process.run save events).run (new (Coordinator.new config recorder))).run (m₀, s₀) =
      ((notes, Q), w)) :
    Lifecycle save m₀ Q w :=
  (Kept.run htok hsave events (kept_new config recorder m₀ s₀) hrun).lifecycle htok hsave

/-- On a machine whose first call fails, with the test sink: two starts, steps of a worker and
of the flusher, a stop and its steps, and a start again. -/
theorem schedule_keepsLifecycle_restart :
    ∃ notes Q w, ((Process.run Script.testSave
      [.call 0 .start, .call 1 .start, .worker 0 0, .flusher 0, .call 0 .stop, .resume 0,
        .resume 0, .resume 0, .call 1 .start]).run
          (new (Coordinator.new { walPath := "data/entity.log", workerThreads := 1 }
            (.live {})))).run
        ({ disk := {}, faults := fun i => if i = 0 then some .notDirectory else none }, {}) =
      ((notes, Q), w) ∧
    Lifecycle Script.testSave
      { disk := {}, faults := fun i => if i = 0 then some .notDirectory else none } Q w := by
  rcases hout : ((Process.run Script.testSave
      [.call 0 .start, .call 1 .start, .worker 0 0, .flusher 0, .call 0 .stop, .resume 0,
        .resume 0, .resume 0, .call 1 .start]).run
          (new (Coordinator.new { walPath := "data/entity.log", workerThreads := 1 }
            (.live {})))).run
        ({ disk := {}, faults := fun i => if i = 0 then some .notDirectory else none }, {}) with
    ⟨⟨notes, Q⟩, w⟩
  exact ⟨notes, Q, w, rfl, schedule_keepsLifecycle _ _ _ (by intro _ hp; cases hp)
    (SinkApart.of_machine fun _ _ => rfl) _ hout⟩

end Process

end EntityLog.Pipeline
