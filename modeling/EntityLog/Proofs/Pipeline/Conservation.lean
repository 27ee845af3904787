import EntityLog.Proofs.Pipeline.Accounting
import EntityLog.Proofs.Pipeline.Delivery
/-!
# Batch accounting within a coordinator

Within a coordinator the metrics also count the records dropped: one for each record the queue
refused, answered to its caller as `dropped`, and the residue that a stop takes off the queue
after its final flush, which it reports with the records that flush persisted. The last stage of a
stop reports both before the stop answers, so the counters run ahead of the answers while a stop
is under way, by exactly what its finished caller holds (`Coordinator.pendingResidue`,
`Coordinator.pendingFlushed`). `Process.Accounted` keeps the accounts of the sink's calls
together with these counts along any schedule of calls and thread steps, restarts included, and
`batchAccounting_conserved` gathers the persist, processor and coordinator laws.
-/

namespace EntityLog.Pipeline

open EntityLog.Files EntityLog.Record EntityLog.Time EntityLog.Config EntityLog.Log

variable {n : Nat} {σ : Type}

/-- What a finished stop reported as dropped: the residue of its final flush. -/
def Caller.reportedResidue : Caller → Nat
  | .finished report _ => report.residue
  | _ => 0

/-- What a finished stop reported as flushed at shutdown. -/
def Caller.reportedFlushed : Caller → Nat
  | .finished report _ => report.finalFlush.persisted
  | _ => 0

namespace Note

/-- The records an answer says were dropped: a record the queue refused, or a stop's residue. -/
def drops : Note n → Nat
  | .answered _ (.logged _ (.ok .dropped)) => 1
  | .answered _ (.stopped report) => report.residue
  | _ => 0

/-- The records a stop's answer says its final flush persisted. -/
def flushed : Note n → Nat
  | .answered _ (.stopped report) => report.finalFlush.persisted
  | _ => 0

end Note

/-- The records the answers of a run say were dropped. -/
def droppedBy (notes : List (Note n)) : Nat := (notes.map Note.drops).sum

/-- The records the stops of a run say their final flushes persisted. -/
def shutdownFlushedBy (notes : List (Note n)) : Nat := (notes.map Note.flushed).sum

@[simp] theorem droppedBy_append (done new : List (Note n)) :
    droppedBy (done ++ new) = droppedBy done + droppedBy new := by
  simp [droppedBy]

@[simp] theorem shutdownFlushedBy_append (done new : List (Note n)) :
    shutdownFlushedBy (done ++ new) = shutdownFlushedBy done + shutdownFlushedBy new := by
  simp [shutdownFlushedBy]

theorem droppedBy_quiet {new : List (Note n)} (h : ∀ x ∈ new, x.drops = 0) : droppedBy new = 0 := by
  simp only [droppedBy, List.sum_eq_zero_iff, List.mem_map]
  rintro _ ⟨x, hx, rfl⟩
  exact h x hx

theorem shutdownFlushedBy_quiet {new : List (Note n)} (h : ∀ x ∈ new, x.flushed = 0) :
    shutdownFlushedBy new = 0 := by
  simp only [shutdownFlushedBy, List.sum_eq_zero_iff, List.mem_map]
  rintro _ ⟨x, hx, rfl⟩
  exact h x hx

variable (save : List ChangeRecord → World σ SaveOutcome)

theorem Accounts.offer {p : Processor} {calls : Ledger} {D F : Nat}
    (hacc : Accounts p.recorder calls D F) (r : ChangeRecord) :
    Accounts (p.offer r).recorder calls (if (p.queue.offer r).2 then D else wrapAdd D 1) F := by
  have htimed := hacc.quiet (r := .offerLatency Span.zero) rfl
  unfold Processor.offer
  rcases p.queue.offer r with ⟨q, accepted⟩
  cases accepted
  · exact htimed.drop 1
  · exact htimed

namespace Pool

variable {P P' : Pool n} {w w' : Machine × σ × Ledger} {D F : Nat}

/-- A step of a worker or the flusher keeps the accounts: it hands the sink what it hands over. -/
theorem step_accounts {t : Thread n} (ht : t ≠ .caller) (hp : ∀ r, t ≠ .producer r)
    (hacc : Accounts P.processor.recorder w.2.2 D F)
    (hrun : (P.step (recording save) t).run w = (P', w')) :
    Accounts P'.processor.recorder w'.2.2 D F := by
  cases t with
  | worker i =>
    cases hi : P.workers i with
    | polling | checking | returned =>
      first
        | rw [step, workerStep_run_polling _ _ hi] at hrun
        | rw [step, workerStep_run_checking _ _ hi] at hrun
        | rw [step, workerStep_run_returned _ _ hi] at hrun
      cases hrun
      exact hacc
    | draining afterStop =>
      rw [step, workerStep_run_draining _ _ hi] at hrun
      cases hrun
      exact hacc
    | handing batch afterStop =>
      rw [step, workerStep_run_handing _ _ hi] at hrun
      cases hrun
      exact (persist_spec save (Prod.mk.eta (p := (P.processor.persist (recording save) batch).run
        w)).symm).2.2.2 hacc
  | flusher =>
    cases hf : P.flusher with
    | waiting | exited =>
      first
        | rw [step, flusherStep_run_waiting _ _ hf] at hrun
        | rw [step, flusherStep_run_exited _ _ hf] at hrun
      cases hrun
      exact hacc
    | flushing =>
      rw [step, flusherStep_run_flushing _ _ hf] at hrun
      cases hrun
      exact hacc
    | handing batch =>
      rw [step, flusherStep_run_handing _ _ hf] at hrun
      cases hrun
      exact ((persist_spec save (Prod.mk.eta (p := (P.processor.persist (recording save)
        batch).run w)).symm).2.2.2 hacc).quiet (r := .flushLatency Span.zero) rfl
  | caller => exact absurd rfl ht
  | producer r => exact absurd rfl (hp r)

/-- A step of the caller stopping the pipeline keeps the accounts, with its last stage reporting
the final flush and the residue that its finished caller then holds. -/
theorem callerStep_accounts
    (hacc : Accounts P.processor.recorder w.2.2 ((D + P.caller.reportedResidue) % wordSize)
      ((F + P.caller.reportedFlushed) % wordSize))
    (hrun : (P.callerStep (recording save)).run w = (P', w')) :
    Accounts P'.processor.recorder w'.2.2 ((D + P'.caller.reportedResidue) % wordSize)
      ((F + P'.caller.reportedFlushed) % wordSize) := by
  unfold callerStep at hrun
  split at hrun
  case h_5 report hc =>
    rw [hc] at hacc
    simp only [StateT.run_pure, id_pure_eq] at hrun
    cases hrun
    have hflushed := hacc.flushedAtShutdown report.finalFlush.persisted
    rw [wrapAdd_mod] at hflushed
    simp only [Caller.reportedResidue, Caller.reportedFlushed, Nat.add_zero] at hflushed ⊢
    split
    · rename_i hempty
      rw [List.isEmpty_iff.1 hempty, List.length_nil, Nat.add_zero]
      exact hflushed
    · have hdropped := hflushed.drop (P.processor.queue.drainAll).2.length
      rwa [wrapAdd_mod] at hdropped
  case h_7 batch report k hc =>
    rw [hc] at hacc
    obtain ⟨⟨p1, ok⟩, w1, hpersist, hrest⟩ := run_bind_eq hrun
    cases hrest
    exact (persist_spec save hpersist).2.2.2 hacc
  all_goals
    rename_i hc
    simp only [StateT.run_pure, id_pure_eq] at hrun
    cases hrun
    simp only [hc, Caller.reportedResidue, Caller.reportedFlushed] at hacc ⊢
    exact hacc

end Pool

namespace Coordinator

/-- What the running pool's finished stop has reported as dropped but not yet answered. -/
def pendingResidue (c : Coordinator n) : Nat :=
  (c.active.map (·.pool.caller.reportedResidue)).getD 0

/-- What the running pool's finished stop has reported as flushed but not yet answered. -/
def pendingFlushed (c : Coordinator n) : Nat :=
  (c.active.map (·.pool.caller.reportedFlushed)).getD 0

variable {c : Coordinator n} {g : Nat} {P P' : Pool n}

theorem pending_withPool (hP : c.pools[g]? = some P) (hcaller : P'.caller = P.caller) :
    (c.withPool g P').pendingResidue = c.pendingResidue ∧
      (c.withPool g P').pendingFlushed = c.pendingFlushed := by
  unfold withPool setPool pendingResidue pendingFlushed
  split_ifs with hd hg
  · exact ⟨rfl, rfl⟩
  · cases ha : c.active with
    | none => exact ⟨rfl, rfl⟩
    | some a =>
      have hpool : a.pool = P := by
        rw [hg, pools_active ha, Option.some.injEq] at hP
        exact hP
      subst hpool
      simp [hcaller]
  · exact ⟨rfl, rfl⟩

theorem pending_withPool_active {a : Active n} (ha : c.active = some a) (P' : Pool n) :
    (c.withPool c.detached.length P').pendingResidue = P'.caller.reportedResidue ∧
      (c.withPool c.detached.length P').pendingFlushed = P'.caller.reportedFlushed := by
  simp [withPool, setPool, pendingResidue, pendingFlushed, ha]

theorem pending_of_stopped (h : c.active = none) : c.pendingResidue = 0 ∧ c.pendingFlushed = 0 := by
  simp [pendingResidue, pendingFlushed, h]

/-- Nothing is pending unless a stop is under way. -/
theorem pending_of_not_stopping (h : c.phase ≠ .stopping) :
    c.pendingResidue = 0 ∧ c.pendingFlushed = 0 := by
  cases ha : c.active with
  | none => exact pending_of_stopped ha
  | some a =>
    have hcaller : ∀ report residue, a.pool.caller ≠ .finished report residue := by
      intro report residue hf
      apply h
      simp [phase, ha, hf, Caller.stopping]
    simp only [pendingResidue, pendingFlushed, ha, Option.map_some, Option.getD_some]
    cases hc : a.pool.caller with
    | finished report residue => exact absurd hc (hcaller report residue)
    | _ => exact ⟨rfl, rfl⟩

end Coordinator

namespace Process

/-- The accounts a run keeps: the metrics account for the sink's calls, and count as dropped and
as flushed at shutdown what the answers so far say, with what a finished stop has reported ahead
of its answer; and every caller about to offer a record offers it to a pool that exists. -/
structure Accounted (done : List (Note n)) (Q : Process n) (w : Machine × σ × Ledger) : Prop where
  accounts : Accounts Q.coordinator.recorder w.2.2
    ((droppedBy done + Q.coordinator.pendingResidue) % wordSize)
    ((shutdownFlushedBy done + Q.coordinator.pendingFlushed) % wordSize)
  offering : ∀ k r g, Q.callers k = .offering r g → g < Q.coordinator.pools.length

variable {done : List (Note n)} {Q : Process n} {w : Machine × σ × Ledger}

theorem Accounted.fresh (config : PipelineConfig) (m : Machine) (s : σ) :
    Accounted ([] : List (Note config.workerThreads)) (new (Coordinator.new config (.live {})))
      (m, s, []) :=
  ⟨Accounts.fresh, fun _ _ _ h => Pending.noConfusion h⟩

theorem Note.quiet_of_caller? {x : Note n} (h : x.caller? = none) : x.drops = 0 ∧ x.flushed = 0 := by
  cases x <;> simp [Note.caller?] at h <;> exact ⟨rfl, rfl⟩

theorem Accounted.append_quiet {new : List (Note n)} (hA : Accounted done Q w)
    (hnew : ∀ x ∈ new, x.drops = 0 ∧ x.flushed = 0) : Accounted (done ++ new) Q w := by
  have hdrops := droppedBy_quiet fun x hx => (hnew x hx).1
  have hflushed := shutdownFlushedBy_quiet fun x hx => (hnew x hx).2
  exact ⟨by simpa [hdrops, hflushed] using hA.accounts, hA.offering⟩

theorem Accounted.withCaller (hA : Accounted done Q w) (k : Nat) {p : Pending}
    (hp : ∀ r g, p = .offering r g → g < Q.coordinator.pools.length) :
    Accounted done (Q.withCaller k p) w := by
  refine ⟨hA.accounts, fun j r g hj => ?_⟩
  by_cases hjk : j = k
  · subst hjk
    rw [withCaller_self] at hj
    exact hp r g hj
  · rw [withCaller_other _ hjk] at hj
    exact hA.offering j r g hj

/-- A step of a worker or the flusher of any pool. -/
theorem Accounted.thread {P : Pool n} {g : Nat} (hA : Accounted done Q w)
    (hP : Q.coordinator.pools[g]? = some P) {t : Pool.Thread n} (ht : t ≠ .caller)
    (hp : ∀ r, t ≠ .producer r) :
    Accounted done { Q with coordinator := (Q.coordinator.stepThread (recording save) g P t w).1 }
      (Q.coordinator.stepThread (recording save) g P t w).2 := by
  have hstep := Pool.step_shared (recording save) (P.lend Q.coordinator.recorder) ht w
  obtain ⟨hres, hfl⟩ := Coordinator.pending_withPool hP hstep.1
  have hacc : Accounts (P.lend Q.coordinator.recorder).processor.recorder w.2.2
      ((droppedBy done + Q.coordinator.pendingResidue) % wordSize)
      ((shutdownFlushedBy done + Q.coordinator.pendingFlushed) % wordSize) := hA.accounts
  refine ⟨?_, fun k r g' hk => ?_⟩
  · simp only [Coordinator.stepThread, Coordinator.withPool_recorder, hres, hfl]
    exact Pool.step_accounts save ht hp hacc Prod.mk.eta.symm
  · rw [Coordinator.stepThread, Coordinator.pools_withPool (List.getElem?_eq_some_iff.1 hP).1,
      List.length_set]
    exact hA.offering k r g' hk

/-- A step of the running pool's caller, on its way through a stop. -/
theorem Accounted.caller {a : Active n} (hA : Accounted done Q w)
    (ha : Q.coordinator.active = some a) :
    Accounted done { Q with coordinator := (Q.coordinator.stepThread (recording save)
      Q.coordinator.detached.length a.pool .caller w).1 }
      (Q.coordinator.stepThread (recording save) Q.coordinator.detached.length a.pool .caller w).2 := by
  obtain ⟨hres, hfl⟩ := Coordinator.pending_withPool_active ha
    (((a.pool.lend Q.coordinator.recorder).step (recording save) .caller).run w).1
  have hpend : Q.coordinator.pendingResidue = a.pool.caller.reportedResidue ∧
      Q.coordinator.pendingFlushed = a.pool.caller.reportedFlushed := by
    simp [Coordinator.pendingResidue, Coordinator.pendingFlushed, ha]
  have hacc : Accounts (a.pool.lend Q.coordinator.recorder).processor.recorder w.2.2
      ((droppedBy done + (a.pool.lend Q.coordinator.recorder).caller.reportedResidue) % wordSize)
      ((shutdownFlushedBy done + (a.pool.lend Q.coordinator.recorder).caller.reportedFlushed) %
        wordSize) := by
    simpa [hpend] using hA.accounts
  refine ⟨?_, fun k r g' hk => ?_⟩
  · simp only [Coordinator.stepThread, Coordinator.withPool_recorder, hres, hfl]
    exact Pool.callerStep_accounts save hacc Prod.mk.eta.symm
  · rw [Coordinator.stepThread, Coordinator.pools_withPool
      (List.getElem?_eq_some_iff.1 (Coordinator.pools_active ha)).1, List.length_set]
    exact hA.offering k r g' hk

theorem Accounted.start {k : Nat} (hA : Accounted done Q w) {r : Except LifecycleError Unit}
    {c' : Coordinator n} {w' : Machine × σ × Ledger}
    (h : ((Coordinator.start (σ := σ × Ledger)).run Q.coordinator).run w = ((r, c'), w')) :
    Accounted (done ++ [.answered k (.started r)]) { Q with coordinator := c' } w' := by
  have hq : Accounted (done ++ [.answered k (.started r)]) Q w :=
    hA.append_quiet (by simp [Note.drops, Note.flushed])
  rcases Coordinator.start_cases h with ⟨-, -, rfl, rfl⟩ | ⟨-, -, -, -, rfl, rfl⟩ |
    ⟨hnone, -, opened, m1, -, hcases⟩
  · exact ⟨hq.accounts, hq.offering⟩
  · exact ⟨hq.accounts, hq.offering⟩
  · obtain ⟨hpr, hpf⟩ := Coordinator.pending_of_stopped hnone
    rcases hcases with ⟨-, -, -, rfl, rfl⟩ | ⟨log, spawned, m2, -, -,
      ⟨-, -, -, -, rfl, rfl⟩ | ⟨-, -, rfl, rfl⟩⟩
    · exact ⟨hq.accounts, hq.offering⟩
    · exact ⟨hq.accounts, hq.offering⟩
    · refine ⟨?_, fun j r' g hj => ?_⟩
      · have hacc := hq.accounts
        rw [hpr, hpf] at hacc
        exact hacc
      · have hlt := hA.offering j r' g hj
        simp only [Coordinator.pools, hnone, Option.map_none, Option.toList_none,
          List.append_nil] at hlt
        simp only [Coordinator.pools, List.length_append, Option.map_some, Option.toList_some,
          List.length_singleton]
        omega

theorem Accounted.write {k : Nat} (hA : Accounted done Q w) {r : ChangeRecord}
    {x : Coordinator.Writing}
    {c' : Coordinator n} {w' : Machine × σ × Ledger}
    (h : ((Coordinator.write (σ := σ × Ledger) r).run Q.coordinator).run w = ((x, c'), w')) :
    (∀ res, x = .answered res →
      Accounted (done ++ [.answered k (.logged r res)]) { Q with coordinator := c' } w') ∧
    (∀ g, x = .written g →
      Accounted (done ++ [.wrote k r]) ({ Q with coordinator := c' }.withCaller k (.offering r g))
        w') := by
  have hsame : Accounted done { Q with coordinator := c' } w' := by
    rcases Coordinator.write_cases h with ⟨-, -, rfl, rfl⟩ | ⟨-, -, -, rfl, rfl⟩ |
      ⟨-, a, res, m1, log, ha, -, rfl, rfl, -⟩
    · exact hA
    · exact hA
    · refine ⟨?_, fun j r' g hj => ?_⟩
      · simpa [Coordinator.pendingResidue, Coordinator.pendingFlushed, ha] using hA.accounts
      · simpa [Coordinator.pools, ha] using hA.offering j r' g hj
  obtain ⟨-, hpools, -, -, hqueued, hwritten, -⟩ := Coordinator.write_spec h
  refine ⟨fun res hres => hsame.append_quiet ?_, fun g hg => ?_⟩
  · have hne := hqueued res hres
    subst hres
    rcases Coordinator.write_cases h with ⟨-, hx, -⟩ | ⟨-, -, hx, -⟩ |
      ⟨-, a', res', m1', log', -, -, -, -, hx⟩
    · cases hx
      simp [Note.drops, Note.flushed]
    · cases hx
      simp [Note.drops, Note.flushed]
    · rcases hx with ⟨-, hx⟩ | ⟨e, -, -, hx⟩ | ⟨ck, -, hx⟩ <;> cases hx <;>
        simp [Note.drops, Note.flushed]
  · obtain ⟨hactive, rfl⟩ := hwritten g hg
    refine (hsame.append_quiet (by simp [Note.drops, Note.flushed])).withCaller k ?_
    intro r' g' hp
    cases hp
    obtain ⟨a, ha⟩ := Option.isSome_iff_exists.1 hactive
    rw [hpools]
    simp [Coordinator.pools, ha]

theorem Accounted.offer {k : Nat} {r : ChangeRecord} {g : Nat} {P : Pool n}
    (hA : Accounted done Q w) (hP : Q.coordinator.pools[g]? = some P) :
    Accounted (done ++ [.answered k (.logged r (.ok (if (P.processor.queue.offer r).2 then .queued
        else .dropped)))])
      ({ Q with coordinator := (Q.coordinator.stepThread (recording save) g P (.producer r)
        w).1 }.withCaller k .idle) (Q.coordinator.stepThread (recording save) g P (.producer r) w).2 := by
  have hstep := Pool.step_shared (recording save) (P.lend Q.coordinator.recorder)
    (t := .producer r) (by simp) w
  obtain ⟨hres, hfl⟩ := Coordinator.pending_withPool hP hstep.1
  have hacc := Accounts.offer (p := (P.lend Q.coordinator.recorder).processor) hA.accounts r
  have hflushed : shutdownFlushedBy [(Note.answered k (.logged r (.ok (if (P.processor.queue.offer
      r).2 then .queued else .dropped))) : Note n)] = 0 := by
    simp [shutdownFlushedBy, Note.flushed]
  refine Accounted.withCaller ⟨?_, fun j r' g' hj => ?_⟩ k (fun _ _ hp => by cases hp)
  · simp only [Coordinator.stepThread, Coordinator.withPool_recorder, hres, hfl,
      droppedBy_append, shutdownFlushedBy_append, hflushed, Nat.add_zero]
    have hrun : ((P.lend Q.coordinator.recorder).step (recording save) (.producer r)).run w =
        ({ P.lend Q.coordinator.recorder with
          processor := (P.lend Q.coordinator.recorder).processor.offer r }, w) := rfl
    rw [hrun]
    simp only [Pool.lend_queue] at hacc
    cases hacc' : (P.processor.queue.offer r).2
    · have hdrops : droppedBy [(Note.answered k (.logged r (.ok .dropped)) : Note n)] = 1 := rfl
      simp only [hacc', Bool.false_eq_true, if_false, wrapAdd_mod] at hacc ⊢
      rw [hdrops, Nat.add_right_comm]
      exact hacc
    · have hdrops : droppedBy [(Note.answered k (.logged r (.ok .queued)) : Note n)] = 0 := rfl
      simp only [hacc', if_true] at hacc ⊢
      rw [hdrops, Nat.add_zero]
      exact hacc
  · rw [Coordinator.stepThread, Coordinator.pools_withPool (List.getElem?_eq_some_iff.1 hP).1,
      List.length_set]
    exact hA.offering j r' g' hj

theorem Accounted.stopEnd {k : Nat} {a : Active n} {report : ShutdownReport}
    {residue : List ChangeRecord} (hA : Accounted done Q w) (ha : Q.coordinator.active = some a)
    (hf : a.pool.caller = .finished report residue) :
    Accounted (done ++ [.answered k (.stopped report)])
      ({ Q with coordinator := Q.coordinator.detach a.pool }.withCaller k .idle)
      (((DurableLog.runLog DurableLog.close a.log).run w.1).2, w.2) := by
  have hpend : Q.coordinator.pendingResidue = report.residue ∧
      Q.coordinator.pendingFlushed = report.finalFlush.persisted := by
    simp [Coordinator.pendingResidue, Coordinator.pendingFlushed, ha, hf, Caller.reportedResidue,
      Caller.reportedFlushed]
  refine Accounted.withCaller ⟨?_, fun j r g hj => ?_⟩ k (fun _ _ hp => by cases hp)
  · have hacc := hA.accounts
    rw [hpend.1, hpend.2] at hacc
    have hdrops : droppedBy [(Note.answered k (.stopped report) : Note n)] = report.residue := by
      simp [droppedBy, Note.drops]
    have hflushed : shutdownFlushedBy [(Note.answered k (.stopped report) : Note n)] =
        report.finalFlush.persisted := by
      simp [shutdownFlushedBy, Note.flushed]
    obtain ⟨hres, hfl⟩ := Coordinator.pending_of_stopped (c := Q.coordinator.detach a.pool) rfl
    rw [droppedBy_append, shutdownFlushedBy_append, hdrops, hflushed, hres, hfl, Nat.add_zero,
      Nat.add_zero]
    exact (hacc.quiet (r := .queueSize 0) rfl).quiet (r := .shutdown) rfl
  · rw [Coordinator.pools_detach ha]
    exact hA.offering j r g hj

/-- Every event of a process keeps its accounts. -/
theorem Accounted.step {e : Event} {new : List (Note n)} {Q' : Process n}
    {w' : Machine × σ × Ledger} (hA : Accounted done Q w)
    (ht : Takes (recording save) e Q w new Q' w') : Accounted (done ++ new) Q' w' := by
  cases ht with
  | skip => simpa using hA
  | answer k a hk ha =>
    exact hA.append_quiet (by rcases ha with rfl | ⟨q, rfl⟩ | ⟨ck, rfl⟩ <;> simp [Note.drops,
      Note.flushed])
  | start k hk h => exact hA.start h
  | beginStop k hk ha hrun =>
    simpa using (hA.caller save ha).withCaller k (fun _ _ hp => by cases hp)
  | logAnswered k hk h => exact (hA.write h).1 _ rfl
  | logWritten k hk h => exact (hA.write h).2 _ rfl
  | offer k hk hP => exact hA.offer save hP
  | offerLost k hk hP =>
    exact absurd (hA.offering k _ _ hk) (by simpa using hP)
  | stopStep k hk ha hf =>
    exact (hA.caller save ha).append_quiet fun x hx =>
      Note.quiet_of_caller? (joinNote_quiet _ x hx)
  | stopEnd k hk ha hf => exact hA.stopEnd ha hf
  | stopGone k hk ha =>
    exact (hA.withCaller k (fun _ _ hp => by cases hp)).append_quiet
      (by simp [Note.drops, Note.flushed])
  | worker g i hi hP =>
    simpa using hA.thread save hP (by simp) (by simp)
  | flusher g hP =>
    refine (hA.thread save hP (by simp) (by simp)).append_quiet ?_
    split <;> simp [Note.drops, Note.flushed]

end Process

/-- Batch accounting is conserved. Persisting calls the sink exactly once for a nonempty batch and
never for an empty one. A processor driven by any sequence of offers, drains, flushes, final
flushes and direct persists, from fresh metrics, has handed the sink only nonempty batches, and its
batch counters tally the calls, so that the records accepted and rejected add up to the batch-size
total. A coordinator run by any schedule of calls and thread steps, from fresh metrics, tallies the
sink's calls too, and whenever no stop is under way it has counted as dropped the records answered
as dropped and the residue of every stop, and as flushed at shutdown what every stop's final flush
persisted. -/
theorem batchAccounting_conserved (save : List ChangeRecord → World σ SaveOutcome) :
    (∀ (p p' : Processor) (batch : List ChangeRecord) (ok : Bool) (w w' : Machine × σ × Ledger),
      (p.persist (recording save) batch).run w = ((p', ok), w') →
      w'.2.2 = w.2.2 ++ if batch.isEmpty then [] else
        [(batch, ((save batch).run (w.1, w.2.1)).1)]) ∧
    (∀ (drives : List Drive) (queue : BoundedQueue ChangeRecord) (batchSize : Nat)
      (p' : Processor) (m m' : Machine) (s s' : σ) (calls : Ledger),
      (Drive.runAll (recording save) drives ⟨queue, .live {}, batchSize⟩).run (m, s, []) =
        (p', (m', s', calls)) →
      (∀ call ∈ calls, call.1 ≠ []) ∧ ∃ metrics, p'.recorder = .live metrics ∧
        Tallies metrics calls ∧ (metrics.processed + calls.rejected) % wordSize =
          metrics.batchSize.total) ∧
    (∀ (config : PipelineConfig) (events : List Event) (m m' : Machine) (s s' : σ)
      (notes : List (Note config.workerThreads)) (Q : Process config.workerThreads)
      (calls : Ledger),
      ((Process.run (recording save) events).run
          (Process.new (Coordinator.new config (.live {})))).run (m, s, []) =
        ((notes, Q), (m', s', calls)) →
      (∀ call ∈ calls, call.1 ≠ []) ∧ ∃ metrics, Q.coordinator.recorder = .live metrics ∧
        Tallies metrics calls ∧ (Q.coordinator.phase ≠ .stopping →
          metrics.dropped = droppedBy notes % wordSize ∧
            metrics.shutdownFlushed = shutdownFlushedBy notes % wordSize)) := by
  refine ⟨fun p p' batch ok w w' hrun => (persist_spec save hrun).2.2.1, ?_, ?_⟩
  · intro drives queue batchSize p' m m' s s' calls hrun
    have hacc := drives_account save drives Accounts.fresh hrun
    obtain ⟨metrics, hlive, htally, -, -⟩ := hacc.live
    exact ⟨hacc.nonempty, metrics, hlive, htally, htally.processed_add_rejected⟩
  · intro config events m m' s s' notes Q calls hrun
    have hA := Process.Takes.run_induction (recording save) (fun _ => True)
      (fun done Q w => Process.Accounted done Q w) (fun _ hA ht => hA.step save ht) events
      (fun _ _ => trivial) (Process.Accounted.fresh config m s)
    rw [hrun, List.nil_append] at hA
    obtain ⟨metrics, hlive, htally, hdropped, hflushed⟩ := hA.accounts.live
    refine ⟨hA.accounts.nonempty, metrics, hlive, htally, fun hphase => ?_⟩
    obtain ⟨hres, hfl⟩ := Coordinator.pending_of_not_stopping hphase
    rw [hres, Nat.add_zero] at hdropped
    rw [hfl, Nat.add_zero] at hflushed
    exact ⟨hdropped, hflushed⟩

end EntityLog.Pipeline
