import EntityLog.Proofs.Pipeline.Shutdown
/-!
# What a stop finds once the threads are gone

A worker past the signal returns only after a drain of its came back empty, and the queue, closed
by then, stays empty (`Emptied`). So a caller that stops waiting for the threads when none is left
(`AllOut`) reports that they all exited, finds the queue empty, and from then on reports it
drained, hands nothing in its final flush and leaves no residue (`Reported`). Once such a stop is
over, nothing in the pool moves again (`Final`). Each is kept by every step of every thread, given
the order in which the caller stops the pool (`ClosesFirst`) and a positive batch size.
-/

namespace EntityLog.Pipeline

open EntityLog.Record

variable {S : Type} (save : List ChangeRecord → StateM S SaveOutcome)

namespace Worker

theorem afterStop_of_foundEmpty {w : Worker} (h : w.foundEmpty = true) : w.afterStop = true := by
  cases w with
  | handing batch afterStop => cases afterStop <;> simp_all [foundEmpty, afterStop]
  | returned => rfl
  | polling | checking | draining _ => simp [foundEmpty] at h

end Worker

namespace Pool

variable {n : Nat}

/-- Every worker has returned and the flusher has left its loop. -/
def AllOut (P : Pool n) : Prop := (∀ i, P.workers i = .returned) ∧ P.flusher = .exited

/-- The caller finds no thread still in its loop exactly when all are out. -/
theorem stragglers_eq_nil_iff (P : Pool n) : P.stragglers = [] ↔ P.AllOut := by
  simp only [stragglers, AllOut, List.append_eq_nil_iff, List.map_eq_nil_iff,
    List.filter_eq_nil_iff, List.mem_finRange, bne_iff_ne, ne_eq, not_not, forall_const]
  constructor
  · rintro ⟨hworkers, hflusher⟩
    refine ⟨hworkers, ?_⟩
    by_contra hne
    simp [hne] at hflusher
  · rintro ⟨hworkers, hflusher⟩
    exact ⟨hworkers, by simp [hflusher]⟩

/-- Once a drain of a worker past the signal came back empty, the queue is empty. -/
def Emptied (P : Pool n) : Prop :=
  ∀ i, (P.workers i).foundEmpty = true → P.processor.queue.items = []

theorem Emptied.spawn (p : Processor) (rounds : Nat) : Emptied (Pool.spawn p rounds : Pool n) :=
  fun _ h => by simp [Pool.spawn, Worker.foundEmpty] at h

/-- A worker's own step keeps its drain's finding: an empty batch was taken off an empty queue,
since a batch holds at least one record, and handing it over returns. -/
theorem Emptied.own {P : Pool n} (hb : 0 < P.processor.batchSize) (hE : Emptied P) (i : Fin n)
    (w : S) (h : (((P.workerStep save i).run w).1.workers i).foundEmpty = true) :
    ((P.workerStep save i).run w).1.processor.queue.items = [] := by
  cases hi : P.workers i with
  | polling =>
    rw [workerStep_polling save hi] at h
    split at h <;> simp [Worker.foundEmpty] at h
  | checking =>
    rw [workerStep_checking save hi] at h
    split at h <;> simp [Worker.foundEmpty] at h
  | draining afterStop =>
    obtain ⟨hworker, hitems⟩ := workerStep_draining save hi w
    rw [hworker] at h
    cases afterStop with
    | false => simp [Worker.foundEmpty] at h
    | true =>
      have hnil : P.processor.queue.items.take P.processor.batchSize = [] := by
        simpa [Worker.foundEmpty] using h
      rw [hitems, (List.take_eq_nil_iff.1 hnil).resolve_left (Nat.ne_of_gt hb), List.drop_nil]
  | handing batch afterStop =>
    obtain ⟨hworker, hqueue⟩ := workerStep_handing save hi w
    rw [hqueue]
    rw [hworker] at h
    -- only the empty batch of the last drain leads out of the loop
    cases afterStop with
    | false => simp [Worker.afterHanding, Worker.foundEmpty] at h
    | true =>
      by_cases hempty : batch.isEmpty
      · exact hE i (by rw [hi]; simpa [Worker.foundEmpty] using hempty)
      · simp [Worker.afterHanding, hempty, Worker.foundEmpty] at h
  | returned =>
    rw [workerStep_returned save hi w]
    exact hE i (by rw [hi]; rfl)

/-- Every step keeps the queue empty behind a worker's empty drain. -/
theorem Emptied.step {P : Pool n} (hb : 0 < P.processor.batchSize) (hP : ClosesFirst P)
    (hE : Emptied P) (t : Thread n) (w : S) : Emptied ((P.step save t).run w).1 := by
  intro i hi
  by_cases ht : t = .worker i
  · subst ht
    exact hE.own save hb i w hi
  · -- the worker stays where it was, and the closed queue only loses records
    rw [step_frame save P ht w] at hi
    have hclosed := hP.caller (hP.signal (hP.workers i (Worker.afterStop_of_foundEmpty hi)))
    have hsuffix := ((step_touches save P t w).1.closed hclosed).2
    rw [hE i hi] at hsuffix
    exact List.suffix_nil.1 hsuffix

/-- Every worker returned, the flusher out, the queue empty and closed, and the caller done with
its stop, with no residue: nothing in the pool moves any more. -/
structure Final (P : Pool n) : Prop where
  out : P.AllOut
  finished : ∃ report, P.caller = .finished report []
  empty : P.processor.queue.items = []
  closed : P.processor.queue.closed = true

/-- A flusher out of its loop stays put. -/
theorem flusherStep_exited {P : Pool n} (h : P.flusher = .exited) (w : S) :
    ((P.flusherStep save).run w).1 = P := by
  simp only [flusherStep, h]
  rfl

/-- Only the flusher's own steps move it. -/
theorem step_flusher (P : Pool n) {t : Thread n} (ht : t ≠ .flusher) (w : S) :
    ((P.step save t).run w).1.flusher = P.flusher := by
  cases t with
  | worker i => simp only [Pool.step, workerStep]; split <;> rfl
  | flusher => exact absurd rfl ht
  | caller => simp only [Pool.step, callerStep]; split <;> rfl
  | producer r => rfl

/-- A closed queue refuses every offer. -/
theorem offer_refused_of_closed {q : BoundedQueue ChangeRecord} (h : q.closed = true)
    (r : ChangeRecord) : (q.offer r).2 = false := by
  cases hacc : (q.offer r).2 with
  | false => rfl
  | true => simp [((BoundedQueue.offer_accepted_iff q r).1 hacc).1] at h

/-- No step changes a pool whose stop is over, but for its metrics. -/
theorem Final.step {P : Pool n} (hF : Final P) (t : Thread n) (w : S) :
    Final ((P.step save t).run w).1 := by
  obtain ⟨report, hcaller⟩ := hF.finished
  cases t with
  | worker i =>
    rw [show ((P.step save (.worker i)).run w).1 = P from workerStep_returned save (hF.out.1 i) w]
    exact hF
  | flusher =>
    rw [show ((P.step save .flusher).run w).1 = P from flusherStep_exited save hF.out.2 w]
    exact hF
  | caller =>
    have hsame : ((P.step save .caller).run w).1 = P := by
      simp only [Pool.step, callerStep, hcaller]
      rfl
    rw [hsame]
    exact hF
  | producer r =>
    -- the closed queue refuses the record: only the metrics count the drop
    have hqueue : ((P.step save (.producer r)).run w).1.processor.queue = P.processor.queue := by
      show (P.processor.offer r).queue = P.processor.queue
      simp only [Processor.offer, offer_refused_of_closed hF.closed r, Bool.false_eq_true,
        if_false, Processor.report, BoundedQueue.offer_of_refused _ (offer_refused_of_closed
          hF.closed r)]
    exact ⟨hF.out, ⟨report, hcaller⟩, hqueue ▸ hF.empty, hqueue ▸ hF.closed⟩

/-- What the caller's report says once it stopped waiting for the threads and found them all out:
they exited and the queue is empty; once it waited for the queue, that the queue drained; its
final flush takes nothing; and the stop leaves no residue. -/
def Reported (P : Pool n) : Prop :=
  match P.caller with
  | .waiting r => r.workersExited = true → P.AllOut ∧ P.processor.queue.items = []
  | .flushing r _ => r.workersExited = true →
      P.AllOut ∧ P.processor.queue.items = [] ∧ r.drained = true
  | .handing batch r _ => r.workersExited = true →
      P.AllOut ∧ P.processor.queue.items = [] ∧ r.drained = true ∧ batch = []
  | .finished r residue => r.workersExited = true →
      P.AllOut ∧ P.processor.queue.items = [] ∧ r.drained = true ∧ residue = [] ∧ r.residue = 0
  | _ => True

theorem Reported.spawn (p : Processor) (rounds : Nat) : Reported (Pool.spawn p rounds : Pool n) :=
  trivial

/-- All threads out and the queue empty and closed stay so through the steps of threads other
than the caller. -/
theorem AllOut.step {P : Pool n} (hout : P.AllOut) (hclosed : P.processor.queue.closed = true)
    (hempty : P.processor.queue.items = []) {t : Thread n} (ht : t ≠ .caller) (w : S) :
    (((P.step save t).run w).1.AllOut ∧ ((P.step save t).run w).1.processor.queue.items = []) := by
  have hitems : ((P.step save t).run w).1.processor.queue.items = [] := by
    have hsuffix := ((step_touches save P t w).1.closed hclosed).2
    rw [hempty] at hsuffix
    exact List.suffix_nil.1 hsuffix
  refine ⟨⟨fun i => ?_, ?_⟩, hitems⟩
  · by_cases hti : t = .worker i
    · subst hti
      rw [show ((P.step save (.worker i)).run w).1 = P from
        workerStep_returned save (hout.1 i) w]
      exact hout.1 i
    · rw [step_frame save P hti w]
      exact hout.1 i
  · by_cases htf : t = .flusher
    · subst htf
      rw [show ((P.step save .flusher).run w).1 = P from flusherStep_exited save hout.2 w]
      exact hout.2
    · rw [step_flusher save P htf w]
      exact hout.2

/-- Every step keeps what the caller's report says. -/
theorem Reported.step (hn : 0 < n) {P : Pool n} (hP : ClosesFirst P) (hE : Emptied P) (hR : Reported P) (t : Thread n) (w : S) :
    Reported ((P.step save t).run w).1 := by
  by_cases ht : t = .caller
  · subst ht
    unfold Reported at hR ⊢
    simp only [Pool.step, callerStep]
    cases hc : P.caller with
    | running | closed => simp [StateT.run_pure, id_pure_eq]
    | joining =>
      -- the caller finds every thread out: the first worker returned, so the queue is empty
      simp only [StateT.run_pure, id_pure_eq]
      intro hexited
      have hout := (stragglers_eq_nil_iff P).1 (by simpa using hexited)
      exact ⟨hout, hE ⟨0, hn⟩ (by rw [hout.1]; rfl)⟩
    | waiting r =>
      simp only [hc] at hR
      simp only [StateT.run_pure, id_pure_eq]
      intro hexited
      obtain ⟨hout, hempty⟩ := hR hexited
      exact ⟨hout, hempty, by simp [BoundedQueue.isEmpty, hempty]⟩
    | flushing r k =>
      simp only [hc] at hR
      cases k with
      | zero =>
        simp only [StateT.run_pure, id_pure_eq]
        intro hexited
        obtain ⟨hout, hempty, hdrained⟩ := hR hexited
        have hres : P.processor.queue.drainAll.2 = [] := by simp [BoundedQueue.drainAll, hempty]
        exact ⟨hout, by split <;> rfl, hdrained, hres, by simp [hres]⟩
      | succ k =>
        simp only [StateT.run_pure, id_pure_eq]
        intro hexited
        obtain ⟨hout, hempty, hdrained⟩ := hR hexited
        exact ⟨hout, by simp [Processor.takeBatch, BoundedQueue.drain, hempty], hdrained,
          by simp [Processor.takeBatch, BoundedQueue.drain, hempty]⟩
    | handing batch r k =>
      simp only [hc] at hR
      simp only [StateT.run_bind, id_bind_eq, StateT.run_pure, id_pure_eq]
      intro hexited
      obtain ⟨hout, hempty, hdrained, hbatch⟩ := hR hexited
      have hkeeps := Processor.persist_keeps save P.processor batch w
      exact ⟨hout, by rw [hkeeps.1]; exact hempty, hdrained⟩
    | finished r residue =>
      simp only [hc] at hR
      simp only [StateT.run_pure, id_pure_eq, hc]
      exact hR
  · -- the caller stays where it was; all threads out and an empty queue stay so
    obtain ⟨hcaller, -⟩ := step_shared save P ht w
    unfold Reported at hR ⊢
    rw [hcaller]
    cases hc : P.caller with
    | running | closed | joining => trivial
    | waiting r =>
      simp only [hc] at hR
      intro hexited
      obtain ⟨hout, hempty⟩ := hR hexited
      exact AllOut.step save hout (hP.caller (by simp [hc])) hempty ht w
    | flushing r k =>
      simp only [hc] at hR
      intro hexited
      obtain ⟨hout, hempty, hdrained⟩ := hR hexited
      exact ⟨(AllOut.step save hout (hP.caller (by simp [hc])) hempty ht w).1,
        (AllOut.step save hout (hP.caller (by simp [hc])) hempty ht w).2, hdrained⟩
    | handing batch r k =>
      simp only [hc] at hR
      intro hexited
      obtain ⟨hout, hempty, hdrained, hbatch⟩ := hR hexited
      exact ⟨(AllOut.step save hout (hP.caller (by simp [hc])) hempty ht w).1,
        (AllOut.step save hout (hP.caller (by simp [hc])) hempty ht w).2, hdrained, hbatch⟩
    | finished r residue =>
      simp only [hc] at hR
      intro hexited
      obtain ⟨hout, hempty, hdrained, hres, hzero⟩ := hR hexited
      exact ⟨(AllOut.step save hout (hP.caller (by simp [hc])) hempty ht w).1,
        (AllOut.step save hout (hP.caller (by simp [hc])) hempty ht w).2, hdrained, hres, hzero⟩

/-- A stop that found every thread out ends with the pool final. -/
theorem Reported.final {P : Pool n} (hP : ClosesFirst P) (hR : Reported P)
    {report : ShutdownReport} {residue : List ChangeRecord}
    (hc : P.caller = .finished report residue) (hexited : report.workersExited = true) :
    Final P := by
  unfold Reported at hR
  rw [hc] at hR
  obtain ⟨hout, hempty, -, hres, -⟩ := hR hexited
  exact ⟨hout, ⟨report, hres ▸ hc⟩, hempty, hP.caller (by simp [hc])⟩

end Pool

end EntityLog.Pipeline
