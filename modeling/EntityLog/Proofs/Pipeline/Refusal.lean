import EntityLog.Proofs.Pipeline.Events
import EntityLog.Proofs.Log.Handles
/-!
# When logging answers that the pipeline is not running

Logging reports a write that the log refuses as closed as `notRunning`, and a log refuses a write
as closed exactly when it has no live handle. A running coordinator's log loses its handle when a
write finds the live file damaged and cannot recover it, the backup being gone too; from then on
the coordinator still runs, and answers every captured record as not running. What carries the
statement is that a running log's backup is ready whenever its live file is open
(`MirrorsReady`). It does not depend on the machine, and every event of a process keeps it, so it
holds of every coordinator that a schedule reaches, whatever other programs do to the files
between events.
-/

namespace EntityLog.Pipeline

open EntityLog.Files EntityLog.Record EntityLog.Log EntityLog.Config

variable {n : Nat} {σ : Type} (save : List ChangeRecord → World σ SaveOutcome)

namespace Coordinator

/-- The running log keeps its backup ready while its live file is open. -/
def MirrorsReady (c : Coordinator n) : Prop := ∀ a, c.active = some a → a.log.MirrorReady

variable {c c' : Coordinator n} {w w' : Machine × σ}

theorem MirrorsReady.of_stopped (h : c.active = none) : c.MirrorsReady := by
  intro a ha
  simp [h] at ha

theorem MirrorsReady.of_logs (hc : c.MirrorsReady)
    (h : c'.active.map (·.log) = c.active.map (·.log)) : c'.MirrorsReady := by
  intro a' ha'
  cases ha : c.active with
  | none => simp [ha, ha'] at h
  | some a =>
    rw [ha', ha, Option.map_some, Option.map_some, Option.some.injEq] at h
    rw [h]
    exact hc a ha

theorem MirrorsReady.stepThread (hc : c.MirrorsReady) (g : Nat) (P : Pool n) (t : Pool.Thread n)
    (w : Machine × σ) : (c.stepThread save g P t w).1.MirrorsReady :=
  hc.of_logs (withPool_log g _)

theorem MirrorsReady.withLog (a : Active n) {log : DurableLog} (hlog : log.MirrorReady) :
    ({ c with active := some { a with log := log } } : Coordinator n).MirrorsReady := by
  intro a' ha'
  rw [Option.some.injEq] at ha'
  subst ha'
  exact hlog

theorem start_mirrorsReady (hc : c.MirrorsReady) {r : Except LifecycleError Unit}
    (h : ((start (σ := σ)).run c).run w = ((r, c'), w')) : c'.MirrorsReady := by
  rcases start_cases h with ⟨-, -, rfl, -⟩ | ⟨-, -, -, -, rfl, -⟩ | ⟨-, -, opened, m1, hopen, hcases⟩
  · exact hc
  · exact hc
  · rcases hcases with ⟨-, -, -, rfl, -⟩ | ⟨log, spawned, m2, rfl, -, ⟨-, -, -, -, rfl, -⟩ | ⟨-, -, -, rfl⟩⟩
    · exact hc
    · exact hc
    · have hready := wp_ok (DurableLog.openLog_spec (m := w.1) c.config.walPath c.config.backup)
        (by rw [hopen])
      intro a ha
      rw [Option.some.injEq] at ha
      subst ha
      exact hready.1

/-- A write keeps the log's handles in step, whether it succeeds or fails. -/
theorem write_mirrorReady (r : ChangeRecord) {log log' : DurableLog} (hlog : log.MirrorReady)
    {m m' : Machine} {res : Except WalError Checkpoint}
    (h : (DurableLog.write r).run.run (m, log) = (res, m', log')) : log'.MirrorReady := by
  cases hfile : log.file with
  | none =>
    rw [DurableLog.write_of_closed r hfile, Prod.mk.injEq, Prod.mk.injEq] at h
    rw [← h.2.2]
    exact hlog
  | some inode =>
    have hspec := DurableLog.write_spec (m := m) r hlog (by simp [hfile])
    cases res with
    | error e =>
      have hready := (wp_error hspec (by rw [h])).1
      rwa [h] at hready
    | ok ck =>
      have hready := (wp_ok hspec (by rw [h])).1
      rwa [h] at hready

theorem write_mirrorsReady (hc : c.MirrorsReady) {r : ChangeRecord} {x : Writing}
    (h : ((write (σ := σ) r).run c).run w = ((x, c'), w')) : c'.MirrorsReady := by
  rcases write_cases h with ⟨-, -, rfl, -⟩ | ⟨-, -, -, rfl, -⟩ | ⟨-, a, res, m1, log, ha, hlog, rfl, -, -⟩
  · exact hc
  · exact hc
  · exact MirrorsReady.withLog a (write_mirrorReady r (hc a ha) hlog)

/-- The offer of a logged record keeps the log. -/
theorem offer_log {r : ChangeRecord} {g : Nat} {y : Logged}
    (h : ((offer save r g).run c).run w = ((y, c'), w')) :
    c'.active.map (·.log) = c.active.map (·.log) := by
  cases hP : c.pools[g]? with
  | none =>
    rw [offer_of_none save hP] at h
    cases h
    rfl
  | some P =>
    rw [offer_of_pool save hP] at h
    cases h
    exact withPool_log g _

theorem logChange_of_answered {r : ChangeRecord} {res : Except LifecycleError Logged}
    {c1 : Coordinator n} {w1 : Machine × σ}
    (h : ((write (σ := σ) r).run c).run w = ((.answered res, c1), w1)) :
    ((logChange save r).run c).run w = ((res, c1), w1) := by
  simp only [logChange, StateT.run_bind, h]
  rfl

theorem logChange_of_written {r : ChangeRecord} {g : Nat} {c1 : Coordinator n}
    {w1 : Machine × σ} (h : ((write (σ := σ) r).run c).run w = ((.written g, c1), w1)) :
    ((logChange save r).run c).run w =
      ((.ok (((offer save r g).run c1).run w1).1.1, (((offer save r g).run c1).run w1).1.2),
        (((offer save r g).run c1).run w1).2) := by
  simp only [logChange, StateT.run_bind, h]
  rfl

/-- Logging a captured record on a coordinator whose running log keeps its backup ready answers
that the pipeline is not running exactly when it is stopped or its log has lost its live handle.
Every other refusal is a write error other than a closed log, and an accepted record leaves the
coordinator running with its handle. -/
theorem logChange_notRunning_iff_handleLost (hc : c.MirrorsReady) {r : ChangeRecord}
    (hr : c.config.capture.captures r.entity.name = true) {ans : Except LifecycleError Logged}
    (hrun : ((logChange save r).run c).run w = ((ans, c'), w')) :
    (ans = .error .notRunning ↔ c.active = none ∨ ∃ a, c.active = some a ∧ a.log.file = none) ∧
    (∀ e, ans = .error e → e = .notRunning ∨ ∃ we, we ≠ .closed ∧ e = .write we) ∧
    (∀ v, ans = .ok v → ∃ a', c'.active = some a' ∧ a'.log.file.isSome) := by
  rcases hw : ((write (σ := σ) r).run c).run w with ⟨⟨x, c1⟩, w1⟩
  rcases write_cases hw with ⟨hcap, -⟩ | ⟨-, hstop, rfl, -, -⟩ |
    ⟨-, a, res, m1, log, ha, hlog, rfl, -, hres⟩
  · rw [hr] at hcap
    cases hcap
  · rw [logChange_of_answered save hw] at hrun
    cases hrun
    refine ⟨iff_of_true rfl (.inl hstop), fun e he => ?_, fun v hv => by cases hv⟩
    cases he
    exact .inl rfl
  · cases hfile : a.log.file with
    | none =>
      have hclosed : res = .error .closed := by
        rw [DurableLog.write_of_closed r hfile] at hlog
        cases hlog
        rfl
      rcases hres with ⟨-, rfl⟩ | ⟨e, hne, he, -⟩ | ⟨ck, hck, -⟩
      · rw [logChange_of_answered save hw] at hrun
        cases hrun
        refine ⟨iff_of_true rfl (.inr ⟨a, ha, hfile⟩), fun e he => ?_, fun v hv => by cases hv⟩
        cases he
        exact .inl rfl
      · rw [hclosed] at he
        cases he
        exact absurd rfl hne
      · rw [hclosed] at hck
        cases hck
    | some inode =>
      have hspec := DurableLog.write_spec (m := w.1) r (hc a ha) (by simp [hfile])
      have hrunning : ¬(c.active = none ∨ ∃ a, c.active = some a ∧ a.log.file = none) := by
        rintro (hstop | ⟨a', ha', hnone⟩)
        · simp [ha] at hstop
        · rw [ha, Option.some.injEq] at ha'
          subst ha'
          simp [hfile] at hnone
      rcases hres with ⟨hcl, -⟩ | ⟨e, hne, he, rfl⟩ | ⟨ck, hck, rfl⟩
      · exact absurd rfl (wp_error hspec (by rw [hlog, hcl])).2
      · rw [logChange_of_answered save hw] at hrun
        cases hrun
        refine ⟨iff_of_false (by simp) hrunning, fun e' he' => ?_, fun v hv => by cases hv⟩
        cases he'
        exact .inr ⟨e, hne, rfl⟩
      · rcases hoff : ((offer save r c.detached.length).run
          { c with active := some { a with log := log } }).run w1 with ⟨⟨y, c2⟩, w2⟩
        rw [logChange_of_written save hw, hoff] at hrun
        cases hrun
        have hopen : log.file.isSome = true := by
          have h := (wp_ok hspec (by rw [hlog, hck])).2
          rwa [hlog] at h
        refine ⟨iff_of_false (by simp) hrunning, fun e he => (by cases he), fun v _ => ?_⟩
        have hkept : c2.active.map (·.log) = some log := offer_log save hoff
        obtain ⟨a', ha', hlog'⟩ := Option.map_eq_some_iff.1 hkept
        exact ⟨a', ha', by rw [hlog']; exact hopen⟩

/-- A running coordinator whose log lost its live handle, as a write that found the live file
damaged and no backup to restore leaves it, answers a captured record as not running. -/
theorem logChange_notRunning_whileRunning :
    let config : PipelineConfig := { workerThreads := 1, walPath := "x.log" }
    let log : DurableLog := ⟨LogPaths.forLog "x.log", none, ⟨"x.log.backup", .mirror, none⟩,
      Checkpoint.at 3 (Time.Instant.ofMillis 0), 1, some ⟨["x.log.lock"], 2, 0⟩⟩
    let c : Coordinator config.workerThreads := { Coordinator.new config (.live {}) with
      active := some ⟨log, Pool.spawn ⟨BoundedQueue.empty config.queueCapacity, .live {},
        config.batchSize⟩ config.shutdown.finalFlushRounds⟩ }
    let r : ChangeRecord :=
      ⟨⟨1⟩, ⟨"T", "1"⟩, .create, .empty, Time.Instant.ofMillis 0, none⟩
    c.phase = .running ∧ c.MirrorsReady ∧ c.config.capture.captures r.entity.name = true ∧
      (((logChange (σ := Unit) (fun _ => pure .saved) r).run c).run
        (({ disk := {} } : Machine), ())).1.1 = .error .notRunning := by
  intro config log c r
  have hc : c.MirrorsReady := by
    intro a ha
    rw [Option.some.injEq] at ha
    subst ha
    exact DurableLog.MirrorReady.of_closed rfl
  have hr : c.config.capture.captures r.entity.name = true := rfl
  refine ⟨rfl, hc, hr, ?_⟩
  rcases hout : ((logChange (σ := Unit) (fun _ => pure .saved) r).run c).run
    (({ disk := {} } : Machine), ()) with ⟨⟨ans, c'⟩, w'⟩
  exact (logChange_notRunning_iff_handleLost _ hc hr hout).1.2 (.inr ⟨_, rfl, rfl⟩)

end Coordinator

namespace Process

variable {Q Q' : Process n} {w w' : Machine × σ} {e : Event} {notes : List (Note n)}

/-- Every event of a process keeps its running log's backup ready. -/
theorem Takes.mirrorsReady (hc : Q.coordinator.MirrorsReady) (ht : Takes save e Q w notes Q' w') :
    Q'.coordinator.MirrorsReady := by
  cases ht with
  | skip => exact hc
  | answer => exact hc
  | start k hk h => exact Coordinator.start_mirrorsReady hc h
  | beginStop => exact hc.stepThread save _ _ _ _
  | logAnswered k hk h => exact Coordinator.write_mirrorsReady hc h
  | logWritten k hk h => exact Coordinator.write_mirrorsReady hc h
  | offer => exact hc.stepThread save _ _ _ _
  | offerLost => exact hc
  | stopStep => exact hc.stepThread save _ _ _ _
  | stopEnd => exact .of_stopped rfl
  | stopGone => exact hc
  | worker => exact hc.stepThread save _ _ _ _
  | flusher => exact hc.stepThread save _ _ _ _

/-- Every coordinator a schedule reaches keeps its running log's backup ready. -/
theorem run_mirrorsReady (events : List Event) (hc : Q.coordinator.MirrorsReady)
    (hrun : ((run save events).run Q).run w = ((notes, Q'), w')) : Q'.coordinator.MirrorsReady :=
  Takes.run_keeps save (fun Q _ => Q.coordinator.MirrorsReady)
    (fun hinv ht => Takes.mirrorsReady save hinv ht) events hc hrun

end Process

end EntityLog.Pipeline
