import EntityLog.Pipeline.Pool
import EntityLog.Proofs.Pipeline.BoundedFifo
import EntityLog.Proofs.Pipeline.FinalFlush
/-!
# The workers' last drains end

Once the queue is closed, nothing refills it: every step of every thread leaves a closed queue
closed, holding what it held or what is left after taking records off its front
(`step_touches`, `Touched.closed`). A worker that has seen the stop signal drains until a batch
comes back empty, and each of its drains takes a full batch or all that is left; so with `q`
records queued it can make at most `⌈q / b⌉ + 1` more drains, and other threads taking records
only lower that count, while each drain of its own lowers it by one. Each drain is two steps of
the worker, taking the batch and handing it over, and `Draining` keeps the worker's steps so far
and the steps it may still take within `2 * (⌈s / b⌉ + 1)`, for `s` the records queued when it
entered the loop (`Draining.step`, `Draining.run`).

In every run from a freshly spawned pool the caller closes the queue before it raises the signal,
and a worker enters its last loop only once it has seen the signal (`ClosesFirst`). So each worker
returns within `⌈s / b⌉ + 1` drains however the other threads move, and from the moment it
returns the queue stays empty (`stopLoop_returnsWithinBatches`).
-/

namespace EntityLog.Pipeline

open EntityLog.Record

/-! ## A closed queue only loses its oldest records -/

namespace BoundedQueue

variable {α : Type}

/-- `q'` is `q` after at most one of the queue's operations. -/
inductive Touched (q : BoundedQueue α) : BoundedQueue α → Prop
  | keep : Touched q q
  | offer (x : α) : Touched q (q.offer x).1
  | drain (k : Nat) : Touched q (q.drain k).1
  | drainAll : Touched q q.drainAll.1
  | close : Touched q q.close

/-- An operation on a closed queue leaves it closed, holding what is left of its items after
taking some off the front. -/
theorem Touched.closed {q q' : BoundedQueue α} (h : Touched q q') (hq : q.closed = true) :
    q'.closed = true ∧ q'.items <:+ q.items := by
  cases h with
  | keep => exact ⟨hq, List.suffix_refl _⟩
  | offer x =>
    -- a closed queue refuses every offer
    have hrefused : (q.offer x).2 = false := by
      cases hacc : (q.offer x).2 with
      | false => rfl
      | true => simp [((offer_accepted_iff q x).1 hacc).1] at hq
    rw [offer_of_refused q hrefused]
    exact ⟨hq, List.suffix_refl _⟩
  | drain k => exact ⟨hq, List.drop_suffix k q.items⟩
  | drainAll => exact ⟨hq, List.nil_suffix⟩
  | close => exact ⟨rfl, List.suffix_refl _⟩

end BoundedQueue

/-! ## What one step does -/

variable {S : Type} (save : List ChangeRecord → StateM S SaveOutcome)

namespace Processor

/-- Handing a batch to the sink leaves the queue and the batch size as they were. -/
theorem persist_keeps (p : Processor) (batch : List ChangeRecord) (w : S) :
    ((p.persist save batch).run w).1.1.queue = p.queue ∧
      ((p.persist save batch).run w).1.1.batchSize = p.batchSize := by
  unfold persist
  split
  · exact ⟨rfl, rfl⟩
  · -- whatever the sink answers, only the metrics change
    simp only [StateT.run_bind, id_bind_eq]
    split <;> exact ⟨rfl, rfl⟩

/-- Handing a batch to the sink leaves the queue untouched and the batch size as it was. -/
theorem persist_touches (p : Processor) (batch : List ChangeRecord) (w : S) :
    BoundedQueue.Touched p.queue ((p.persist save batch).run w).1.1.queue ∧
      ((p.persist save batch).run w).1.1.batchSize = p.batchSize := by
  obtain ⟨hq, hb⟩ := persist_keeps save p batch w
  exact ⟨hq ▸ .keep, hb⟩

/-- Taking a batch takes the oldest records, at most a batch of them, off the queue. -/
theorem takeBatch_eq (p : Processor) :
    p.takeBatch = ({ p with queue := (p.queue.drain p.batchSize).1 },
      p.queue.items.take p.batchSize) := rfl

end Processor

namespace Worker

/-- Whether the worker has seen the stop signal: it drains until a batch comes back empty, or has
returned. -/
def afterStop : Worker → Bool
  | .draining afterStop => afterStop
  | .handing _ afterStop => afterStop
  | .returned => true
  | _ => false

/-- Handing a batch over keeps whether the worker has seen the signal. -/
theorem afterStop_afterHanding (batch : List ChangeRecord) (afterStop : Bool) :
    (afterHanding batch afterStop).afterStop = afterStop := by
  cases afterStop with
  | false => rfl
  | true =>
    show (if batch.isEmpty then returned else draining true).afterStop = true
    split <;> rfl

/-- Whether the worker's last drain came back empty: it is about to return, or has. -/
def foundEmpty : Worker → Bool
  | .handing batch true => batch.isEmpty
  | .returned => true
  | _ => false

/-- The steps a worker past the signal may still take, with `q` records queued and batches of
`b`: two for each drain that can still find records, and two for the last drain, which finds
none. -/
def stepsLeft (b q : Nat) : Worker → Nat
  | .draining true => 2 * ((q + b - 1) / b + 1)
  | .handing batch true => if batch.isEmpty then 1 else 2 * ((q + b - 1) / b + 1) + 1
  | _ => 0

/-- Fewer records queued leave no more steps. -/
theorem stepsLeft_mono (b : Nat) {q q' : Nat} (hq : q' ≤ q) (w : Worker) :
    w.stepsLeft b q' ≤ w.stepsLeft b q := by
  have hdiv : (q' + b - 1) / b ≤ (q + b - 1) / b := Nat.div_le_div_right (by omega)
  cases w with
  | draining afterStop => cases afterStop <;> simp only [stepsLeft] <;> omega
  | handing batch afterStop =>
    cases afterStop with
    | false => exact Nat.le_refl 0
    | true =>
      simp only [stepsLeft]
      split <;> omega
  | polling | checking | returned => exact Nat.le_refl 0

/-- A drain lowers the steps left by one at least: after a full batch or the rest of the queue one
drain fewer is left, after an empty batch only handing it over. -/
theorem stepsLeft_drain {b : Nat} (hb : 0 < b) (items : List ChangeRecord) :
    (handing (items.take b) true).stepsLeft b (items.length - b) + 1 ≤
      2 * ((items.length + b - 1) / b + 1) := by
  simp only [stepsLeft]
  split
  · generalize (items.length + b - 1) / b = now
    omega
  · rename_i hne
    have hpos : 0 < items.length := by
      rw [List.length_pos_iff]
      rintro rfl
      simp at hne
    have hstep := ceilDiv_step hb hpos
    generalize (items.length - b + b - 1) / b = later at hstep ⊢
    generalize (items.length + b - 1) / b = now at hstep ⊢
    omega

/-- A worker past the signal that has not returned has a step left. -/
theorem stepsLeft_pos (b q : Nat) {w : Worker} (hw : w.afterStop = true) (hret : w ≠ .returned) :
    0 < w.stepsLeft b q := by
  cases w with
  | draining afterStop => cases afterStop <;> simp_all [afterStop, stepsLeft]
  | handing batch afterStop =>
    cases afterStop
    · simp [afterStop] at hw
    · simp only [stepsLeft]
      split <;> omega
  | polling | checking => simp [afterStop] at hw
  | returned => exact absurd rfl hret

end Worker

namespace Pool

variable {n : Nat}

/-- Every step touches the queue with at most one of its operations, and keeps the batch size. -/
theorem step_touches (P : Pool n) (t : Thread n) (w : S) :
    BoundedQueue.Touched P.processor.queue ((P.step save t).run w).1.processor.queue ∧
      ((P.step save t).run w).1.processor.batchSize = P.processor.batchSize := by
  cases t with
  | worker i =>
    simp only [step, workerStep]
    split
    · exact ⟨.keep, rfl⟩
    · exact ⟨.keep, rfl⟩
    · exact ⟨.drain _, rfl⟩
    · exact Processor.persist_touches save P.processor _ w
    · exact ⟨.keep, rfl⟩
  | flusher =>
    simp only [step, flusherStep]
    split
    · exact ⟨.keep, rfl⟩
    · exact ⟨.drain _, rfl⟩
    · exact Processor.persist_touches save P.processor _ w
    · exact ⟨.keep, rfl⟩
  | caller =>
    simp only [step, callerStep]
    split
    · exact ⟨.close, rfl⟩
    · exact ⟨.keep, rfl⟩
    · exact ⟨.keep, rfl⟩
    · exact ⟨.keep, rfl⟩
    · exact ⟨by split <;> exact .drainAll, by split <;> rfl⟩
    · exact ⟨.drain _, rfl⟩
    · exact Processor.persist_touches save P.processor _ w
    · exact ⟨.keep, rfl⟩
  | producer r => exact ⟨by simp only [step, Processor.offer]; split <;> exact .offer r,
      by simp only [step, Processor.offer]; split <;> rfl⟩

/-- A step of another thread leaves worker `i` where it was. -/
theorem step_frame (P : Pool n) {t : Thread n} {i : Fin n} (ht : t ≠ .worker i) (w : S) :
    ((P.step save t).run w).1.workers i = P.workers i := by
  cases t with
  | worker j =>
    have hij : i ≠ j := fun h => ht (h ▸ rfl)
    simp only [step, workerStep]
    split <;> simp only [setWorker, if_neg hij, StateT.run_bind, StateT.run_pure, id_bind_eq,
      id_pure_eq]
  | flusher =>
    simp only [step, flusherStep]
    split <;> simp only [StateT.run_bind, StateT.run_pure, id_bind_eq, id_pure_eq]
  | caller =>
    simp only [step, callerStep]
    split <;> simp only [StateT.run_bind, StateT.run_pure, id_bind_eq, id_pure_eq]
  | producer r => rfl

section Own

variable {P : Pool n} {i : Fin n}

/-- A worker about to drain takes the oldest records, at most a batch of them, off the queue. -/
theorem workerStep_draining {afterStop : Bool} (h : P.workers i = .draining afterStop) (w : S) :
    ((P.workerStep save i).run w).1.workers i =
        .handing (P.processor.queue.items.take P.processor.batchSize) afterStop ∧
      ((P.workerStep save i).run w).1.processor.queue.items =
        P.processor.queue.items.drop P.processor.batchSize := by
  simp only [workerStep, h]
  exact ⟨by simp [setWorker, Processor.takeBatch_eq, BoundedQueue.drain, id_pure_eq], rfl⟩

/-- A worker handing a batch over goes on as `Worker.afterHanding` says; the queue stays. -/
theorem workerStep_handing {batch : List ChangeRecord} {afterStop : Bool}
    (h : P.workers i = .handing batch afterStop) (w : S) :
    ((P.workerStep save i).run w).1.workers i = Worker.afterHanding batch afterStop ∧
      ((P.workerStep save i).run w).1.processor.queue = P.processor.queue := by
  simp only [workerStep, h, StateT.run_bind, id_bind_eq]
  exact ⟨by simp [setWorker, id_pure_eq], (Processor.persist_keeps save P.processor batch w).1⟩

/-- A worker that returned stays put. -/
theorem workerStep_returned (h : P.workers i = .returned) (w : S) :
    ((P.workerStep save i).run w).1 = P := by
  simp only [workerStep, h]
  rfl

/-- A worker at the top of its loop enters its last loop exactly when the signal is raised. -/
theorem workerStep_polling (h : P.workers i = .polling) (w : S) :
    ((P.workerStep save i).run w).1.workers i =
      if P.signalled then .draining true else .checking := by
  simp [workerStep, h, setWorker, id_pure_eq]

/-- A worker looking at the queue drains next when it holds a full batch, and else polls again. -/
theorem workerStep_checking (h : P.workers i = .checking) (w : S) :
    ((P.workerStep save i).run w).1.workers i =
      if P.processor.queue.size ≥ P.processor.batchSize then .draining false else .polling := by
  simp [workerStep, h, setWorker, id_pure_eq]

end Own

/-- Steps of the workers, the flusher and the producers leave the caller and the signal alone. -/
theorem step_shared (P : Pool n) {t : Thread n} (ht : t ≠ .caller) (w : S) :
    ((P.step save t).run w).1.caller = P.caller ∧
      ((P.step save t).run w).1.signalled = P.signalled := by
  cases t with
  | worker j =>
    simp only [step, workerStep]
    split <;> simp only [setWorker, StateT.run_bind, StateT.run_pure, id_bind_eq, id_pure_eq,
      and_self]
  | flusher =>
    simp only [step, flusherStep]
    split <;> simp only [StateT.run_bind, StateT.run_pure, id_bind_eq, id_pure_eq, and_self]
  | caller => exact absurd rfl ht
  | producer r => exact ⟨rfl, rfl⟩

/-- A worker enters its loop after the signal only from the top of its loop, seeing the signal. -/
theorem workerStep_afterStop (P : Pool n) (j : Fin n) (w : S)
    (h : (((P.workerStep save j).run w).1.workers j).afterStop = true) :
    (P.workers j).afterStop = true ∨ P.signalled = true := by
  cases hj : P.workers j with
  | polling =>
    rw [workerStep_polling save hj] at h
    cases hs : P.signalled
    · simp [hs, Worker.afterStop] at h
    · exact .inr rfl
  | checking =>
    rw [workerStep_checking save hj] at h
    split at h <;> simp [Worker.afterStop] at h
  | draining afterStop =>
    rw [(workerStep_draining save hj w).1] at h
    exact .inl h
  | handing batch afterStop =>
    rw [(workerStep_handing save hj w).1, Worker.afterStop_afterHanding] at h
    exact .inl h
  | returned => exact .inl rfl

/-- After any step of the caller it is stopping; its first step closes the queue, and the signal
stays raised. -/
theorem callerStep_spec (P : Pool n) (w : S) :
    ((P.callerStep save).run w).1.caller ≠ .running ∧
      (P.caller = .running → ((P.callerStep save).run w).1.processor.queue.closed = true) ∧
      (P.signalled = true → ((P.callerStep save).run w).1.signalled = true) := by
  simp only [callerStep]
  split <;> simp only [StateT.run_bind, StateT.run_pure, id_bind_eq, id_pure_eq] <;>
    simp_all [BoundedQueue.close]

/-- Running a schedule is one step, then the rest. -/
theorem run_cons (P : Pool n) (t : Thread n) (ts : List (Thread n)) (w : S) :
    (P.run save (t :: ts)).run w =
      (((P.step save t).run w).1.run save ts).run ((P.step save t).run w).2 := rfl

/-! ## The caller closes the queue first -/

/-- The order the caller keeps in stopping: once it has begun, the queue is closed; the signal is
raised only after that; and a worker enters its last loop only once the signal is raised. -/
structure ClosesFirst (P : Pool n) : Prop where
  caller : P.caller ≠ .running → P.processor.queue.closed = true
  signal : P.signalled = true → P.caller ≠ .running
  workers : ∀ i, (P.workers i).afterStop = true → P.signalled = true

/-- A pool just spawned keeps the order: nothing has happened yet. -/
theorem ClosesFirst.spawn (p : Processor) (rounds : Nat) :
    ClosesFirst (Pool.spawn p rounds : Pool n) :=
  ⟨fun h => absurd rfl h, fun h => Bool.noConfusion h, fun _ h => Bool.noConfusion h⟩

/-- Every step keeps the order. -/
theorem ClosesFirst.step {P : Pool n} (hP : ClosesFirst P) (t : Thread n) (w : S) :
    ClosesFirst ((P.step save t).run w).1 := by
  have hclosed : P.processor.queue.closed = true →
      ((P.step save t).run w).1.processor.queue.closed = true :=
    fun h => ((step_touches save P t w).1.closed h).1
  by_cases ht : t = .caller
  · -- the caller's step: the other threads stay where they were
    subst ht
    obtain ⟨hstopping, hcloses, hraised⟩ := callerStep_spec save P w
    refine ⟨fun _ => ?_, fun _ => hstopping, fun i hi => hraised (hP.workers i ?_)⟩
    · by_cases hrun : P.caller = .running
      · exact hcloses hrun
      · exact hclosed (hP.caller hrun)
    · rwa [step_frame save P (by simp) w] at hi
  · obtain ⟨hcaller, hsignal⟩ := step_shared save P ht w
    refine ⟨fun h => hclosed (hP.caller (hcaller ▸ h)),
      fun h => hcaller ▸ hP.signal (hsignal ▸ h), fun i hi => hsignal ▸ ?_⟩
    by_cases hti : t = .worker i
    · subst hti
      rcases workerStep_afterStop save P i w hi with h | h
      · exact hP.workers i h
      · exact h
    · exact hP.workers i (step_frame save P hti w ▸ hi)

/-- Every run from a freshly spawned pool keeps the order. -/
theorem ClosesFirst.run {P : Pool n} (hP : ClosesFirst P) :
    ∀ (schedule : List (Thread n)) (w : S), ClosesFirst ((P.run save schedule).run w).1
  | [], _ => hP
  | t :: ts, w => by
    rw [run_cons]
    exact (hP.step save t w).run ts _

/-! ## The last loop of a worker -/

section Last

variable {i : Fin n} {b s : Nat}

/-- Worker `i` in its loop after the signal, on a closed queue with batches of `b`, having taken
`taken` steps since `s` records were queued. Unless it has returned, its steps so far and the steps
it may still take fit in `2 * (⌈s / b⌉ + 1)`; once a drain of its came back empty, the queue is
empty. -/
structure Draining (i : Fin n) (b s taken : Nat) (P : Pool n) : Prop where
  batchSize : P.processor.batchSize = b
  closed : P.processor.queue.closed = true
  afterStop : (P.workers i).afterStop = true
  emptied : (P.workers i).foundEmpty = true → P.processor.queue.items = []
  budget : P.workers i = .returned ∨
    taken + (P.workers i).stepsLeft b P.processor.queue.size ≤ 2 * ((s + b - 1) / b + 1)

/-- The state of a worker that has just seen the signal, with `s` records queued. -/
theorem Draining.entered {P : Pool n} (hi : P.workers i = .draining true)
    (hclosed : P.processor.queue.closed = true) :
    Draining i P.processor.batchSize P.processor.queue.size 0 P where
  batchSize := rfl
  closed := hclosed
  afterStop := by rw [hi]; rfl
  emptied := by rw [hi]; intro h; cases h
  budget := .inr (by rw [hi]; simp [Worker.stepsLeft])

/-- Another thread's step keeps the invariant: the worker stays where it was, and a closed queue
only loses records. -/
theorem Draining.of_touched {taken : Nat} {P P' : Pool n} (hP : Draining i b s taken P)
    (hbatch : P'.processor.batchSize = P.processor.batchSize)
    (htouch : BoundedQueue.Touched P.processor.queue P'.processor.queue)
    (hworker : P'.workers i = P.workers i) : Draining i b s taken P' := by
  obtain ⟨hclosed, hsuffix⟩ := htouch.closed hP.closed
  have hsize : P'.processor.queue.size ≤ P.processor.queue.size := hsuffix.length_le
  refine ⟨hbatch.trans hP.batchSize, hclosed, hworker ▸ hP.afterStop, fun h => ?_, ?_⟩
  · rw [hP.emptied (hworker ▸ h)] at hsuffix
    exact List.suffix_nil.1 hsuffix
  · rw [hworker]
    refine hP.budget.imp id fun h => ?_
    exact Nat.le_trans (Nat.add_le_add_left (Worker.stepsLeft_mono b hsize _) taken) h

/-- A drain of the worker keeps the invariant with one step more: it takes a full batch, which
leaves one drain fewer to make, or all that is left, or nothing, which leaves only handing the
empty batch over. -/
theorem Draining.drain (hb : 0 < b) {taken : Nat} {P : Pool n} (hP : Draining i b s taken P)
    (hi : P.workers i = .draining true) (w : S) :
    Draining i b s (taken + 1) ((P.workerStep save i).run w).1 := by
  obtain ⟨htouch, hbatch⟩ := step_touches save P (.worker i) w
  obtain ⟨hworker, hitems⟩ := workerStep_draining save hi w
  have hbudget : taken + 2 * ((P.processor.queue.size + b - 1) / b + 1) ≤
      2 * ((s + b - 1) / b + 1) := by
    simpa [hi, Worker.stepsLeft] using hP.budget
  rw [hP.batchSize] at hworker hitems
  refine ⟨hbatch.trans hP.batchSize, (htouch.closed hP.closed).1, by rw [hworker]; rfl,
    fun h => ?_, .inr ?_⟩
  · -- an empty batch means an empty queue, since a batch holds at least one record
    rw [hworker] at h
    have hnil : P.processor.queue.items.take b = [] := by simpa [Worker.foundEmpty] using h
    rw [hitems, (List.take_eq_nil_iff.1 hnil).resolve_left (Nat.ne_of_gt hb), List.drop_nil]
  · rw [hworker, BoundedQueue.size, hitems, List.length_drop]
    rw [BoundedQueue.size] at hbudget
    have hfewer := Worker.stepsLeft_drain hb P.processor.queue.items
    generalize (P.processor.queue.items.length + b - 1) / b = now at hbudget hfewer
    generalize (s + b - 1) / b = total at hbudget ⊢
    omega

/-- Handing a batch over keeps the invariant with one step more: after a full batch the worker
drains again, after an empty one it returns. -/
theorem Draining.hand {taken : Nat} {P : Pool n} (hP : Draining i b s taken P)
    {batch : List ChangeRecord} (hi : P.workers i = .handing batch true) (w : S) :
    Draining i b s (taken + 1) ((P.workerStep save i).run w).1 := by
  obtain ⟨htouch, hbatch⟩ := step_touches save P (.worker i) w
  obtain ⟨hworker, hqueue⟩ := workerStep_handing save hi w
  by_cases hempty : batch = []
  · -- the last drain came back empty: the worker returns, and the queue is empty
    subst hempty
    have hret : ((P.workerStep save i).run w).1.workers i = .returned := hworker
    refine ⟨hbatch.trans hP.batchSize, (htouch.closed hP.closed).1, by rw [hret]; rfl,
      fun _ => ?_, .inl hret⟩
    rw [hqueue]
    exact hP.emptied (by rw [hi]; rfl)
  · have hnext : ((P.workerStep save i).run w).1.workers i = .draining true := by
      rw [hworker]
      simp [Worker.afterHanding, hempty]
    have hbudget : taken + (2 * ((P.processor.queue.size + b - 1) / b + 1) + 1) ≤
        2 * ((s + b - 1) / b + 1) := by
      simpa [hi, Worker.stepsLeft, hempty] using hP.budget
    refine ⟨hbatch.trans hP.batchSize, (htouch.closed hP.closed).1, by rw [hnext]; rfl,
      fun h => by rw [hnext] at h; exact Bool.noConfusion h, .inr ?_⟩
    rw [hnext, hqueue]
    simp only [Worker.stepsLeft]
    generalize (P.processor.queue.size + b - 1) / b = now at hbudget ⊢
    omega

/-- A worker that has taken all the steps the budget allows has returned: one still in its loop
has a step left, for which the budget leaves no room. -/
theorem Draining.returned_of_le {taken : Nat} {P : Pool n} (hP : Draining i b s taken P)
    (hall : 2 * ((s + b - 1) / b + 1) ≤ taken) : P.workers i = .returned := by
  rcases hP.budget with hret | hwithin
  · exact hret
  · refine Classical.byContradiction fun hret => ?_
    have hpos := Worker.stepsLeft_pos b P.processor.queue.size hP.afterStop hret
    omega

/-- Once the worker has returned, the queue is empty. -/
theorem Draining.empty_of_returned {taken : Nat} {P : Pool n} (hP : Draining i b s taken P)
    (hret : P.workers i = .returned) : P.processor.queue.items = [] :=
  hP.emptied (by rw [hret]; rfl)

/-- Every step keeps the invariant, counting the worker's own steps. -/
theorem Draining.step (hb : 0 < b) {taken : Nat} {P : Pool n} (hP : Draining i b s taken P)
    (t : Thread n) (w : S) :
    Draining i b s (taken + if t = .worker i then 1 else 0) ((P.step save t).run w).1 := by
  by_cases ht : t = .worker i
  · subst ht
    rw [if_pos rfl]
    show Draining i b s (taken + 1) ((P.workerStep save i).run w).1
    -- only the states of the last loop can occur; the worker's own step follows its state
    have hafter := hP.afterStop
    cases hi : P.workers i with
    | draining afterStop =>
      cases afterStop with
      | true => exact hP.drain save hb hi w
      | false => simp [hi, Worker.afterStop] at hafter
    | handing batch afterStop =>
      cases afterStop with
      | true => exact hP.hand save hi w
      | false => simp [hi, Worker.afterStop] at hafter
    | returned =>
      rw [workerStep_returned save hi w]
      exact ⟨hP.batchSize, hP.closed, hP.afterStop, hP.emptied, .inl hi⟩
    | polling | checking => simp [hi, Worker.afterStop] at hafter
  · rw [if_neg ht, Nat.add_zero]
    obtain ⟨htouch, hbatch⟩ := step_touches save P t w
    exact hP.of_touched hbatch htouch (step_frame save P ht w)

/-- The invariant holds along every schedule, counting the worker's own steps in it. -/
theorem Draining.run (hb : 0 < b) : ∀ (schedule : List (Thread n)) {taken : Nat} {P : Pool n}
    (w : S), Draining i b s taken P →
      Draining i b s (taken + schedule.count (.worker i)) ((P.run save schedule).run w).1
  | [], _, _, _, hP => hP
  | t :: ts, taken, P, w, hP => by
    rw [run_cons, List.count_cons]
    have hrest := Draining.run hb ts ((P.step save t).run w).2 (hP.step save hb t w)
    have hcount : taken + (ts.count (.worker i) + if (t == .worker i) = true then 1 else 0) =
        taken + (if t = .worker i then 1 else 0) + ts.count (.worker i) := by
      simp only [beq_iff_eq]
      omega
    rw [hcount]
    exact hrest

end Last

/-- A worker that returned stays out of its loop, whatever the others do. -/
theorem run_returned {i : Fin n} : ∀ (schedule : List (Thread n)) {P : Pool n} (w : S),
    P.workers i = .returned → ((P.run save schedule).run w).1.workers i = .returned
  | [], _, _, h => h
  | t :: ts, P, w, h => by
    rw [run_cons]
    apply run_returned ts
    by_cases ht : t = .worker i
    · subst ht
      show ((P.workerStep save i).run w).1.workers i = .returned
      rw [workerStep_returned save h w]
      exact h
    · rw [step_frame save P ht w]
      exact h

/-- No schedule changes the batch size. -/
theorem run_batchSize : ∀ (schedule : List (Thread n)) (P : Pool n) (w : S),
    ((P.run save schedule).run w).1.processor.batchSize = P.processor.batchSize
  | [], _, _ => rfl
  | t :: ts, P, w => by
    rw [run_cons, run_batchSize ts]
    exact (step_touches save P t w).2

/-- Once the stop is under way, each worker's last loop ends. A worker that enters it, seeing the
signal, with `s` records queued and batches of `b ≥ 1` returns within `⌈s / b⌉ + 1` drains, which
are `2 * (⌈s / b⌉ + 1)` steps of its own, whatever the other workers, the flusher, the caller's
final flush and the producers do in between; and from the moment it returns the queue is empty,
at every later point of the run. -/
theorem stopLoop_returnsWithinBatches (p : Processor) (rounds : Nat) (hb : 0 < p.batchSize)
    (i : Fin n) (pre post later : List (Thread n)) (w : S)
    (hentered : (((Pool.spawn p rounds).run save pre).run w).1.workers i = .draining true) :
    let entered := ((Pool.spawn p rounds).run save pre).run w
    let left := (entered.1.run save post).run entered.2
    (2 * ((entered.1.processor.queue.size + p.batchSize - 1) / p.batchSize + 1) ≤
        post.count (.worker i) → left.1.workers i = .returned) ∧
      (left.1.workers i = .returned →
        ((left.1.run save later).run left.2).1.processor.queue.items = []) := by
  dsimp only
  -- the worker saw the signal, so the caller had closed the queue
  have horder := (ClosesFirst.spawn p rounds).run save pre w
  have hclosed := horder.caller (horder.signal (horder.workers i (by rw [hentered]; rfl)))
  have hstart := Draining.entered hentered hclosed
  rw [run_batchSize save pre _ w] at hstart
  have hleft := hstart.run save hb post (((Pool.spawn p rounds).run save pre).run w).2
  refine ⟨fun hcount => hleft.returned_of_le (by omega), fun hret => ?_⟩
  exact (hleft.run save hb later _).empty_of_returned (run_returned save later _ hret)

/-- Two workers share three queued records in batches of two. Worker `0` sees the signal after the
caller closed the queue, and six steps of its own, among steps of the other worker, the flusher, a
producer and the caller, bring it out of its loop; the queue is empty from then on. -/
theorem stopLoop_returnsWithinBatches_twoWorkers :
    let r : ChangeRecord := ⟨⟨1⟩, ⟨"T", "1"⟩, .create, .empty, Time.Instant.ofMillis 0, none⟩
    let p : Processor := ⟨{ items := [r, r, r], capacity := 4 }, .live {}, 2⟩
    let save : List ChangeRecord → StateM Unit SaveOutcome := fun _ => pure .saved
    let pre : List (Thread 2) := [.caller, .caller, .worker 0]
    let post : List (Thread 2) := [.worker 0, .worker 1, .worker 0, .flusher, .worker 0,
      .producer r, .worker 0, .worker 1, .worker 0, .worker 0]
    let later : List (Thread 2) := [.caller, .worker 1, .producer r]
    0 < p.batchSize ∧ ((((Pool.spawn p 1).run save pre).run ()).1.workers 0 = .draining true) ∧
      let entered := ((Pool.spawn p 1).run save pre).run ()
      let left := (entered.1.run save post).run entered.2
      (2 * ((entered.1.processor.queue.size + p.batchSize - 1) / p.batchSize + 1) ≤
          post.count (.worker 0) → left.1.workers 0 = .returned) ∧
        (left.1.workers 0 = .returned →
          ((left.1.run save later).run left.2).1.processor.queue.items = []) :=
  ⟨by decide, rfl, stopLoop_returnsWithinBatches _ _ 1 (by decide) 0 _ _ _ () rfl⟩

end Pool

end EntityLog.Pipeline
