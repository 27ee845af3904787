import EntityLog.Proofs.Pipeline.Events
import EntityLog.Proofs.Pipeline.Exits
/-!
# Every accepted record reaches the sink at most once, in batches cut from the front

A batch taken off the queue is in its thread's hands until the thread hands it to the sink. Against
the records a pool's queue accepted, in order, every step of every thread keeps `Delivers`: the
batches taken so far are pieces of the accepted records from the front, in the order taken, each
nonempty and at most a batch long; each was handed over or is still in a thread's hands; and what
was not taken is still queued, or was taken as the residue at the end of a stop.
-/

namespace EntityLog.Pipeline

open EntityLog.Files EntityLog.Record EntityLog.Log

/-! ## Batches in the threads' hands -/

/-- What handing `batch` to the sink hands over: the batch, unless it is empty. -/
def nonemptyBatch (batch : List ChangeRecord) : List (List ChangeRecord) :=
  if batch.isEmpty then [] else [batch]

@[simp] theorem flatten_nonemptyBatch (batch : List ChangeRecord) :
    (nonemptyBatch batch).flatten = batch := by
  unfold nonemptyBatch
  split <;> simp_all

theorem mem_nonemptyBatch {batch b : List ChangeRecord} (h : b ∈ nonemptyBatch batch) :
    b = batch ∧ b ≠ [] := by
  unfold nonemptyBatch at h
  split at h
  · simp at h
  · rename_i hne
    simp only [List.mem_singleton] at h
    subst h
    simpa using hne

/-- The batch a worker holds and will hand over next. -/
def Worker.holding : Worker → Multiset (List ChangeRecord)
  | .handing batch _ => nonemptyBatch batch
  | _ => 0

/-- The batch the flusher holds and will hand over next. -/
def Flusher.holding : Flusher → Multiset (List ChangeRecord)
  | .handing batch => nonemptyBatch batch
  | _ => 0

/-- The batch the caller holds in its final flush and will hand over next. -/
def Caller.holding : Caller → Multiset (List ChangeRecord)
  | .handing batch _ _ => nonemptyBatch batch
  | _ => 0

/-- The records the caller took as the residue at the end of its stop. -/
def Caller.leftover : Caller → List ChangeRecord
  | .finished _ residue => residue
  | _ => []

/-- Whether the caller's stop is over. -/
def Caller.isFinished : Caller → Bool
  | .finished _ _ => true
  | _ => false

namespace Pool

variable {n : Nat}

/-- The batches in the threads' hands. -/
def held (P : Pool n) : Multiset (List ChangeRecord) :=
  ∑ i, (P.workers i).holding + P.flusher.holding + P.caller.holding

/-- Moving worker `i` to `w` trades what it held for what `w` holds. -/
theorem held_setWorker (P : Pool n) (i : Fin n) (w : Worker) :
    (P.setWorker i w).held + (P.workers i).holding = P.held + w.holding := by
  have hsplit : ∀ f : Fin n → Multiset (List ChangeRecord),
      ∑ j, f j = f i + ∑ j ∈ Finset.univ.erase i, f j :=
    fun f => (Finset.add_sum_erase _ f (Finset.mem_univ i)).symm
  have hrest : ∑ j ∈ Finset.univ.erase i, ((P.setWorker i w).workers j).holding =
      ∑ j ∈ Finset.univ.erase i, (P.workers j).holding :=
    Finset.sum_congr rfl fun j hj => by simp [setWorker, Finset.ne_of_mem_erase hj]
  simp only [held, hsplit ((P.setWorker i w).workers · |>.holding), hsplit (P.workers · |>.holding),
    hrest]
  simp only [setWorker, ↓reduceIte]
  ac_rfl

@[simp] theorem held_processor (P : Pool n) (p : Processor) :
    ({ P with processor := p } : Pool n).held = P.held := rfl

theorem held_flusher (P : Pool n) (f : Flusher) :
    ({ P with flusher := f } : Pool n).held + P.flusher.holding = P.held + f.holding := by
  simp only [held]
  ac_rfl

theorem held_caller (P : Pool n) (c : Caller) :
    ({ P with caller := c } : Pool n).held + P.caller.holding = P.held + c.holding := by
  simp only [held]
  ac_rfl

/-! ## What each thread's step does -/

section Runs

variable {S : Type} (save : List ChangeRecord → StateM S SaveOutcome) {P : Pool n} (w : S)

theorem workerStep_run_polling {i : Fin n} (hi : P.workers i = .polling) :
    (P.workerStep save i).run w =
      (P.setWorker i (if P.signalled then .draining true else .checking), w) := by
  simp only [workerStep, hi]
  rfl

theorem workerStep_run_checking {i : Fin n} (hi : P.workers i = .checking) :
    (P.workerStep save i).run w = (P.setWorker i
      (if P.processor.queue.size ≥ P.processor.batchSize then .draining false else .polling),
      w) := by
  simp only [workerStep, hi]
  rfl

theorem workerStep_run_draining {i : Fin n} {afterStop : Bool}
    (hi : P.workers i = .draining afterStop) :
    (P.workerStep save i).run w =
      ({ P.setWorker i (.handing (P.processor.queue.items.take P.processor.batchSize) afterStop)
          with processor := { P.processor with queue := (P.processor.queue.drain
            P.processor.batchSize).1 } }, w) := by
  simp only [workerStep, hi]
  rfl

theorem workerStep_run_handing {i : Fin n} {batch : List ChangeRecord} {afterStop : Bool}
    (hi : P.workers i = .handing batch afterStop) :
    (P.workerStep save i).run w =
      ({ P.setWorker i (Worker.afterHanding batch afterStop) with
          processor := ((P.processor.persist save batch).run w).1.1 },
        ((P.processor.persist save batch).run w).2) := by
  simp only [workerStep, hi]
  rfl

theorem workerStep_run_returned {i : Fin n} (hi : P.workers i = .returned) :
    (P.workerStep save i).run w = (P, w) := by
  simp only [workerStep, hi]
  rfl

theorem flusherStep_run_waiting (hf : P.flusher = .waiting) :
    (P.flusherStep save).run w =
      ({ P with flusher := if P.signalled then .exited else .flushing }, w) := by
  simp only [flusherStep, hf]
  rfl

theorem flusherStep_run_flushing (hf : P.flusher = .flushing) :
    (P.flusherStep save).run w =
      ({ P with
          processor := { P.processor with
            queue := (P.processor.queue.drain P.processor.batchSize).1 }
          flusher := .handing (P.processor.queue.items.take P.processor.batchSize) }, w) := by
  simp only [flusherStep, hf]
  rfl

theorem flusherStep_run_handing {batch : List ChangeRecord} (hf : P.flusher = .handing batch) :
    (P.flusherStep save).run w =
      ({ P with
          processor := ((P.processor.persist save batch).run w).1.1.report
            (.flushLatency Time.Span.zero)
          flusher := .waiting },
        ((P.processor.persist save batch).run w).2) := by
  simp only [flusherStep, hf]
  rfl

theorem flusherStep_run_exited (hf : P.flusher = .exited) :
    (P.flusherStep save).run w = (P, w) := by
  simp only [flusherStep, hf]
  rfl

end Runs

/-! ## Delivery from the front -/

/-- The records of `accepted`, which a pool's queue took in this order, as far as the pool has
handed them over in `handed`: the batches taken so far are pieces of `accepted` from its front,
in the order taken, each nonempty and at most a batch long; each was handed over or is in a
thread's hands; and what was not taken is still queued, or was taken as the residue at the end
of the stop, after which the queue is empty. -/
structure Delivers (P : Pool n) (accepted : List ChangeRecord) (handed : Handed) : Prop where
  pieces : ∃ pieces : List (List ChangeRecord),
    (∀ b ∈ pieces, b ≠ [] ∧ b.length ≤ P.processor.batchSize) ∧
    (handed : Multiset (List ChangeRecord)) + P.held = pieces ∧
    pieces.flatten ++ P.caller.leftover ++ P.processor.queue.items = accepted
  finished : P.caller.isFinished = true → P.processor.queue.items = []

/-- A pool just spawned on an empty queue has taken and handed nothing. -/
theorem Delivers.spawn (p : Processor) (rounds : Nat) (hp : p.queue.items = []) :
    Delivers (Pool.spawn p rounds : Pool n) [] [] := by
  refine ⟨⟨[], by simp, ?_, by simp [Pool.spawn, Caller.leftover, hp]⟩, fun h => by
    simp [Pool.spawn, Caller.isFinished] at h⟩
  simp [held, Pool.spawn, Worker.holding, Flusher.holding, Caller.holding]

/-- A step that takes the batches `fresh` off the front and lets `extra` join the queue keeps the
delivery, with `extra` accepted too. -/
theorem Delivers.move {P P' : Pool n} {A : List ChangeRecord} {H H' : Handed}
    (h : Delivers P A H) (fresh : List (List ChangeRecord)) (extra : List ChangeRecord)
    (hfresh : ∀ b ∈ fresh, b ≠ [] ∧ b.length ≤ P.processor.batchSize)
    (hbatch : P'.processor.batchSize = P.processor.batchSize)
    (hheld : (H' : Multiset (List ChangeRecord)) + P'.held = H + P.held + fresh)
    (hrest : fresh.flatten ++ P'.caller.leftover ++ P'.processor.queue.items =
      P.caller.leftover ++ P.processor.queue.items ++ extra)
    (hfinished : P'.caller.isFinished = true → P'.processor.queue.items = []) :
    Delivers P' (A ++ extra) H' := by
  obtain ⟨pieces, hsizes, hmult, hflat⟩ := h.pieces
  refine ⟨⟨pieces ++ fresh, fun b hb => ?_, ?_, ?_⟩, hfinished⟩
  · rw [hbatch]
    rcases List.mem_append.1 hb with hb | hb
    · exact hsizes b hb
    · exact hfresh b hb
  · rw [hheld, hmult, ← Multiset.coe_add]
  · rw [← hflat, List.flatten_append]
    simp only [List.append_assoc] at hrest ⊢
    rw [hrest]

/-- Taking a batch off the front: at most a batch of the oldest records, which are all there is
once the stop is over and the queue empty. -/
theorem take_front (items leftover : List ChangeRecord) (b : Nat)
    (h : leftover = [] ∨ items = []) :
    (nonemptyBatch (items.take b)).flatten ++ leftover ++ items.drop b =
      leftover ++ items ++ [] := by
  rcases h with rfl | rfl
  · simp
  · simp

theorem nonemptyBatch_sizes (items : List ChangeRecord) (b : Nat) :
    ∀ x ∈ nonemptyBatch (items.take b), x ≠ [] ∧ x.length ≤ b := by
  intro x hx
  obtain ⟨rfl, hne⟩ := mem_nonemptyBatch hx
  exact ⟨hne, List.length_take_le _ _⟩

/-- Whatever a caller holds is gone once its stop is over, and the residue then is what was queued
before. -/
theorem Caller.leftover_or {c : Caller} {items : List ChangeRecord}
    (h : c.isFinished = true → items = []) : c.leftover = [] ∨ items = [] := by
  cases c with
  | finished report residue => exact .inr (h rfl)
  | _ => exact .inl rfl

/-- What a thread's step lets join the queue: the record of an accepted offer. -/
def accepts (P : Pool n) : Thread n → List ChangeRecord
  | .producer r => if (P.processor.queue.offer r).2 then [r] else []
  | _ => []

theorem offer_items (p : Processor) (r : ChangeRecord) :
    (p.offer r).queue.items = p.queue.items ++ if (p.queue.offer r).2 then [r] else [] := by
  cases hacc : (p.queue.offer r).2 with
  | false =>
    simp [Processor.offer, hacc, Processor.report, BoundedQueue.offer_of_refused _ hacc]
  | true =>
    simp [Processor.offer, hacc, Processor.report, BoundedQueue.offer_of_accepted _ hacc]

theorem offer_batchSize (p : Processor) (r : ChangeRecord) :
    (p.offer r).batchSize = p.batchSize := by
  simp only [Processor.offer]
  split <;> rfl

/-- A step that moves no batch and lets nothing join the queue keeps the delivery. -/
theorem Delivers.keep {P P' : Pool n} {A : List ChangeRecord} {H : Handed} (h : Delivers P A H)
    (hitems : P'.processor.queue.items = P.processor.queue.items)
    (hbatch : P'.processor.batchSize = P.processor.batchSize) (hheld : P'.held = P.held)
    (hleft : P'.caller.leftover = P.caller.leftover)
    (hfin : P'.caller.isFinished = P.caller.isFinished) : Delivers P' A H := by
  have hmove : Delivers P' (A ++ []) H := h.move [] [] (by simp) hbatch
    (by rw [hheld, Multiset.coe_nil, add_zero])
    (by simp [hitems, hleft]) (fun hf => hitems ▸ h.finished (hfin ▸ hf))
  rwa [List.append_nil] at hmove

section Steps

variable {σ : Type} (save : List ChangeRecord → World σ SaveOutcome) {P : Pool n}
  {A : List ChangeRecord}

/-- Handing a batch over moves it from a thread's hands to the sink's. -/
theorem handed_persist (p : Processor) (batch : List ChangeRecord) (w : Machine × σ × Handed) :
    ((p.persist (noting save) batch).run w).2.2.2 = w.2.2 ++ nonemptyBatch batch := by
  obtain ⟨m, s, H⟩ := w
  rcases hrun : (p.persist (noting save) batch).run (m, s, H) with ⟨⟨p', ok⟩, m', s', H'⟩
  rw [(persist_hands save hrun).1, nonemptyBatch]
  split <;> simp

theorem persist_queue (p : Processor) (batch : List ChangeRecord) (w : Machine × σ × Handed) :
    ((p.persist (noting save) batch).run w).1.1.queue = p.queue ∧
      ((p.persist (noting save) batch).run w).1.1.batchSize = p.batchSize :=
  Processor.persist_keeps (noting save) p batch w

/-- Taking the whole queue as the residue ends the stop and keeps the delivery. -/
theorem Delivers.finish {P' : Pool n} {H : Handed} (h : Delivers P A H)
    (hitems : P'.processor.queue.items = [])
    (hbatch : P'.processor.batchSize = P.processor.batchSize) (hheld : P'.held = P.held)
    (hleft : P'.caller.leftover = P.caller.leftover ++ P.processor.queue.items) :
    Delivers P' A H := by
  have hmove : Delivers P' (A ++ []) H := h.move [] [] (by simp) hbatch
    (by rw [hheld, Multiset.coe_nil, add_zero]) (by simp [hitems, hleft]) (fun _ => hitems)
  rwa [List.append_nil] at hmove

/-- Taking a batch off the queue into a thread's hands keeps the delivery. -/
theorem Delivers.take {P' : Pool n} {H : Handed} (h : Delivers P A H)
    (hitems : P'.processor.queue.items = P.processor.queue.items.drop P.processor.batchSize)
    (hbatch : P'.processor.batchSize = P.processor.batchSize)
    (hheld : P'.held = P.held + nonemptyBatch (P.processor.queue.items.take P.processor.batchSize))
    (hleft : P'.caller.leftover = P.caller.leftover)
    (hfin : P'.caller.isFinished = true → P.caller.isFinished = true) : Delivers P' A H := by
  have hmove : Delivers P' (A ++ []) H := h.move _ [] (nonemptyBatch_sizes _ _) hbatch (by rw [hheld, add_assoc])
    (by rw [hitems, hleft]; exact take_front _ _ _ (Caller.leftover_or h.finished))
    (fun hf => by rw [hitems, h.finished (hfin hf), List.drop_nil])
  rwa [List.append_nil] at hmove

/-- Handing a batch from a thread's hands to the sink keeps the delivery. -/
theorem Delivers.hand {P' : Pool n} {H : Handed} {batch : List ChangeRecord} (h : Delivers P A H)
    (hitems : P'.processor.queue.items = P.processor.queue.items)
    (hbatch : P'.processor.batchSize = P.processor.batchSize)
    (hheld : P'.held + nonemptyBatch batch = P.held)
    (hleft : P'.caller.leftover = P.caller.leftover)
    (hfin : P'.caller.isFinished = P.caller.isFinished) :
    Delivers P' A (H ++ nonemptyBatch batch) := by
  have hmove : Delivers P' (A ++ []) (H ++ nonemptyBatch batch) := h.move [] [] (by simp) hbatch (by
      rw [← hheld, ← Multiset.coe_add]
      simp only [Multiset.coe_nil, add_zero]
      ac_rfl) (by simp [hitems, hleft]) (fun hf => hitems ▸ h.finished (hfin ▸ hf))
  rwa [List.append_nil] at hmove

theorem held_setWorker_quiet (P : Pool n) {i : Fin n} {w : Worker} (hold : (P.workers i).holding = 0)
    (hnew : w.holding = 0) : (P.setWorker i w).held = P.held := by
  have hset := P.held_setWorker i w
  rwa [hold, hnew, add_zero, add_zero] at hset

theorem afterHanding_holding (batch : List ChangeRecord) (afterStop : Bool) :
    (Worker.afterHanding batch afterStop).holding = 0 := by
  cases afterStop with
  | false => rfl
  | true =>
    show (if batch.isEmpty then Worker.returned else .draining true).holding = 0
    split <;> rfl

variable {w : Machine × σ × Handed}

theorem Delivers.workerStep (h : Delivers P A w.2.2) (i : Fin n) :
    Delivers ((P.workerStep (noting save) i).run w).1 A
      ((P.workerStep (noting save) i).run w).2.2.2 := by
  cases hi : P.workers i with
  | polling =>
    rw [workerStep_run_polling _ _ hi]
    exact h.keep rfl rfl (P.held_setWorker_quiet (by rw [hi]; rfl) (by split <;> rfl)) rfl rfl
  | checking =>
    rw [workerStep_run_checking _ _ hi]
    exact h.keep rfl rfl (P.held_setWorker_quiet (by rw [hi]; rfl) (by split <;> rfl)) rfl rfl
  | draining afterStop =>
    rw [workerStep_run_draining _ _ hi]
    have hset := P.held_setWorker i
      (.handing (P.processor.queue.items.take P.processor.batchSize) afterStop)
    simp only [hi, Worker.holding, add_zero] at hset
    exact h.take rfl rfl hset rfl id
  | handing batch afterStop =>
    rw [workerStep_run_handing _ _ hi, handed_persist]
    have hset := P.held_setWorker i (Worker.afterHanding batch afterStop)
    rw [hi, afterHanding_holding, add_zero] at hset
    exact h.hand (by rw [(persist_queue save _ _ _).1]) (persist_queue save _ _ _).2 hset rfl rfl
  | returned =>
    rw [workerStep_run_returned _ _ hi]
    exact h

theorem Delivers.flusherStep (h : Delivers P A w.2.2) :
    Delivers ((P.flusherStep (noting save)).run w).1 A
      ((P.flusherStep (noting save)).run w).2.2.2 := by
  cases hf : P.flusher with
  | waiting =>
    rw [flusherStep_run_waiting _ _ hf]
    have hheld := P.held_flusher (if P.signalled then .exited else .flushing)
    rw [hf, show (if P.signalled then Flusher.exited else .flushing).holding = 0 by
      split <;> rfl] at hheld
    exact h.keep rfl rfl (by simpa [Flusher.holding] using hheld) rfl rfl
  | flushing =>
    rw [flusherStep_run_flushing _ _ hf]
    refine h.take rfl rfl ?_ rfl id
    simp only [held, hf, Flusher.holding, add_zero]
    ac_rfl
  | handing batch =>
    rw [flusherStep_run_handing _ _ hf, handed_persist]
    refine h.hand (by simp [Processor.report, (persist_queue save _ _ _).1])
      (by simp [Processor.report, (persist_queue save _ _ _).2]) ?_ rfl rfl
    simp only [held, hf, Flusher.holding, add_zero]
    ac_rfl
  | exited =>
    rw [flusherStep_run_exited _ _ hf]
    exact h

theorem Delivers.callerStep (h : Delivers P A w.2.2) :
    Delivers ((P.callerStep (noting save)).run w).1 A
      ((P.callerStep (noting save)).run w).2.2.2 := by
  have hquiet : ∀ c : Caller, c.holding = 0 → P.caller.holding = 0 →
      ({ P with caller := c } : Pool n).held = P.held := fun c hc hP => by
    have hheld := P.held_caller c
    rwa [hc, hP, add_zero, add_zero] at hheld
  simp only [Pool.callerStep]
  cases hc : P.caller with
  | running =>
    simp only [StateT.run_pure, id_pure_eq]
    exact h.keep rfl rfl (hquiet .closed rfl (by rw [hc]; rfl)) (by rw [hc]; rfl) (by rw [hc]; rfl)
  | closed =>
    simp only [StateT.run_pure, id_pure_eq]
    exact h.keep rfl rfl (hquiet .joining rfl (by rw [hc]; rfl)) (by rw [hc]; rfl) (by rw [hc]; rfl)
  | joining =>
    simp only [StateT.run_pure, id_pure_eq]
    exact h.keep rfl rfl (hquiet _ rfl (by rw [hc]; rfl)) (by rw [hc]; rfl) (by rw [hc]; rfl)
  | waiting report =>
    simp only [StateT.run_pure, id_pure_eq]
    exact h.keep rfl rfl (hquiet _ rfl (by rw [hc]; rfl)) (by rw [hc]; rfl) (by rw [hc]; rfl)
  | flushing report rounds =>
    cases rounds with
    | zero =>
      -- the residue is taken whole: the queue's records become the caller's
      simp only [StateT.run_pure, id_pure_eq]
      refine h.finish (by dsimp only; split <;> rfl) (by dsimp only; split <;> rfl)
        (hquiet _ rfl (by rw [hc]; rfl)) (by simp [hc, Caller.leftover, BoundedQueue.drainAll])
    | succ k =>
      simp only [StateT.run_pure, id_pure_eq]
      refine h.take rfl rfl ?_ (by rw [hc]; rfl) (fun hf => by simp [Caller.isFinished] at hf)
      simp only [held, hc, Caller.holding, add_zero, Processor.takeBatch_eq]
  | handing batch report k =>
    simp only [StateT.run_bind, id_bind_eq, StateT.run_pure, id_pure_eq]
    rw [handed_persist]
    refine h.hand (by rw [(persist_queue save _ _ _).1]) (persist_queue save _ _ _).2 ?_
      (by rw [hc]; rfl) (by rw [hc]; rfl)
    simp only [held, hc, Caller.holding, add_zero]
  | finished report residue =>
    simp only [StateT.run_pure, id_pure_eq]
    exact h

/-- Every step of every thread keeps the delivery, with the record of an accepted offer
accepted too, given the order in which the caller stops the pool. -/
theorem Delivers.step (hP : ClosesFirst P) (h : Delivers P A w.2.2) (t : Thread n) :
    Delivers ((P.step (noting save) t).run w).1 (A ++ P.accepts t)
      ((P.step (noting save) t).run w).2.2.2 := by
  cases t with
  | worker i => simpa only [Pool.step, accepts, List.append_nil] using h.workerStep save i
  | flusher => simpa only [Pool.step, accepts, List.append_nil] using h.flusherStep save
  | caller => simpa only [Pool.step, accepts, List.append_nil] using h.callerStep save
  | producer r =>
    -- a finished stop closed the queue first, so it refuses the record
    have hrefused : P.caller.isFinished = true → (P.processor.queue.offer r).2 = false :=
      fun hf => offer_refused_of_closed (hP.caller (by cases hc : P.caller <;>
        simp_all [Caller.isFinished])) r
    have hrun : (P.step (noting save) (.producer r)).run w =
        ({ P with processor := P.processor.offer r }, w) := rfl
    rw [hrun]
    refine h.move [] _ (by simp) (offer_batchSize _ _) (by simp) (by simp [offer_items, accepts])
      fun hf => ?_
    rw [offer_items, hrefused hf, h.finished hf]
    rfl

end Steps

/-! ## A sound pool -/

/-- What every step of a pool's threads keeps: its delivery of the accepted records, the order in
which its caller stops it, what its report says, and the positive sizes a valid configuration
gives. -/
structure Sound (P : Pool n) (accepted : List ChangeRecord) (handed : Handed) : Prop where
  delivers : Delivers P accepted handed
  closesFirst : ClosesFirst P
  emptied : Emptied P
  reported : Reported P
  workers : 0 < n
  batch : 0 < P.processor.batchSize

theorem Sound.spawn (p : Processor) (rounds : Nat) (hp : p.queue.items = []) (hn : 0 < n)
    (hb : 0 < p.batchSize) : Sound (Pool.spawn p rounds : Pool n) [] [] :=
  ⟨Delivers.spawn p rounds hp, ClosesFirst.spawn p rounds, Emptied.spawn p rounds,
    Reported.spawn p rounds, hn, hb⟩

/-- Lending a pool to other metrics changes nothing that soundness is about. -/
theorem Sound.lend {P : Pool n} {A : List ChangeRecord} {H : Handed} (h : Sound P A H)
    (r : Recorder) : Sound (P.lend r) A H :=
  ⟨⟨h.delivers.pieces, h.delivers.finished⟩,
    ⟨h.closesFirst.caller, h.closesFirst.signal, h.closesFirst.workers⟩, h.emptied, h.reported,
    h.workers, h.batch⟩

theorem Final.lend {P : Pool n} (h : Final P) (r : Recorder) : Final (P.lend r) :=
  ⟨h.out, h.finished, h.empty, h.closed⟩

theorem accepts_lend (P : Pool n) (r : Recorder) (t : Thread n) :
    (P.lend r).accepts t = P.accepts t := rfl

theorem Sound.step {σ : Type} (save : List ChangeRecord → World σ SaveOutcome) {P : Pool n}
    {A : List ChangeRecord} {w : Machine × σ × Handed} (h : Sound P A w.2.2) (t : Thread n) :
    Sound ((P.step (noting save) t).run w).1 (A ++ P.accepts t)
      ((P.step (noting save) t).run w).2.2.2 := by
  have hbatch := (step_touches (noting save) P t w).2
  exact ⟨h.delivers.step save h.closesFirst t, h.closesFirst.step (noting save) t w,
    h.emptied.step (noting save) h.batch h.closesFirst t w,
    h.reported.step (noting save) h.workers h.closesFirst h.emptied t w, h.workers,
    hbatch ▸ h.batch⟩

end Pool

/-! ## What the notes of a run say -/

namespace Note

variable {n : Nat}

/-- The caller a note is about, if any. -/
def caller? : Note n → Option Nat
  | .answered k _ => some k
  | .wrote k _ => some k
  | _ => none

/-- The record an answer says was queued. -/
def queued? : Note n → Option ChangeRecord
  | .answered _ (.logged r (.ok .queued)) => some r
  | _ => none

theorem caller?_of_queued? {x : Note n} {r : ChangeRecord} (h : x.queued? = some r) :
    ∃ k, x = .answered k (.logged r (.ok .queued)) := by
  unfold queued? at h
  split at h
  · cases h
    exact ⟨_, rfl⟩
  · cases h

end Note

section Notes

variable {n : Nat}

/-- The notes about caller `k`, in order. -/
def notesOf (k : Nat) (notes : List (Note n)) : List (Note n) :=
  notes.filter fun x => x.caller? == some k

/-- The records answered as queued, in the order of the answers. -/
def acceptedOf (notes : List (Note n)) : List ChangeRecord := notes.filterMap Note.queued?

@[simp] theorem notesOf_append (k : Nat) (l₁ l₂ : List (Note n)) :
    notesOf k (l₁ ++ l₂) = notesOf k l₁ ++ notesOf k l₂ := List.filter_append _ _

@[simp] theorem acceptedOf_append (l₁ l₂ : List (Note n)) :
    acceptedOf (l₁ ++ l₂) = acceptedOf l₁ ++ acceptedOf l₂ := List.filterMap_append

theorem notesOf_other {k : Nat} {notes : List (Note n)} (h : ∀ x ∈ notes, x.caller? ≠ some k) :
    notesOf k notes = [] := by
  simp only [notesOf, List.filter_eq_nil_iff, beq_iff_eq]
  exact h

theorem notesOf_append_other {k : Nat} (done : List (Note n)) {new : List (Note n)}
    (h : ∀ x ∈ new, x.caller? ≠ some k) : notesOf k (done ++ new) = notesOf k done := by
  rw [notesOf_append, notesOf_other h, List.append_nil]

theorem acceptedOf_quiet {notes : List (Note n)} (h : ∀ x ∈ notes, x.queued? = none) :
    acceptedOf notes = [] := by
  simp only [acceptedOf, List.filterMap_eq_nil_iff]
  exact h

theorem Note.queued?_of_caller? {x : Note n} (h : x.caller? = none) : x.queued? = none := by
  cases x with
  | answered k a => simp [Note.caller?] at h
  | wrote k r => simp [Note.caller?] at h
  | fired g => rfl
  | joined g stragglers => rfl

theorem Note.queued?_answered {k : Nat} {a : Answer} (hq : ∀ r, a ≠ .logged r (.ok .queued)) :
    (Note.answered k a : Note n).queued? = none := by
  unfold Note.queued?
  split
  · rename_i r heq
    cases heq
    exact absurd rfl (hq r)
  · rfl

theorem acceptedOf_answered {k : Nat} {a : Answer} (hq : ∀ r, a ≠ .logged r (.ok .queued)) :
    acceptedOf [(Note.answered k a : Note n)] = [] := by
  simp [acceptedOf, Note.queued?_answered hq]

theorem acceptedOf_wrote (k : Nat) (r : ChangeRecord) :
    acceptedOf [(Note.wrote k r : Note n)] = [] := rfl

/-- The answer to an offer accepts its record exactly when the queue did. -/
theorem acceptedOf_offer (P : Pool n) (k : Nat) (r : ChangeRecord) :
    acceptedOf [(Note.answered k (.logged r (.ok (if (P.processor.queue.offer r).2 then .queued
      else .dropped))) : Note n)] = P.accepts (.producer r) := by
  simp only [acceptedOf, Pool.accepts]
  split <;> simp [Note.queued?]

/-- Note `b` of caller `k` comes right after `a`: an answer that a record was queued comes after
the note that the log took it. -/
def WroteBefore (k : Nat) (a b : Note n) : Prop := ∀ r, b.queued? = some r → a = .wrote k r

/-- Every record answered as queued was written to the log first: among its caller's notes, the
one right before the answer says the log took that record. -/
def DurableFirst (notes : List (Note n)) : Prop :=
  ∀ k, (notesOf k notes).IsChain (WroteBefore k) ∧ ∀ x ∈ (notesOf k notes).head?, x.queued? = none

theorem isChain_wroteBefore {k : Nat} :
    ∀ {l : List (Note n)}, (∀ x ∈ l, x.queued? = none) → l.IsChain (WroteBefore k)
  | [], _ => .nil
  | x :: l, h => List.isChain_cons.2 ⟨fun y hy r hr => by
      simp [h y (List.mem_cons_of_mem x (List.mem_of_mem_head? hy))] at hr,
    isChain_wroteBefore fun y hy => h y (List.mem_cons_of_mem x hy)⟩

theorem DurableFirst.nil : DurableFirst ([] : List (Note n)) :=
  fun _ => ⟨.nil, by simp [notesOf]⟩

/-- Notes that answer no record as queued keep every record written first. -/
theorem DurableFirst.append_quiet {done new : List (Note n)} (h : DurableFirst done)
    (hq : ∀ x ∈ new, x.queued? = none) : DurableFirst (done ++ new) := by
  intro k
  have hnew : ∀ x ∈ notesOf k new, x.queued? = none := fun x hx => hq x (List.mem_filter.1 hx).1
  obtain ⟨hchain, hhead⟩ := h k
  rw [notesOf_append]
  refine ⟨List.isChain_append.2 ⟨hchain, isChain_wroteBefore hnew, fun x _ y hy r hr => ?_⟩, ?_⟩
  · simp [hnew y (List.mem_of_mem_head? hy)] at hr
  · intro x hx
    cases hdone : notesOf k done with
    | nil =>
      rw [hdone, List.nil_append] at hx
      exact hnew x (List.mem_of_mem_head? hx)
    | cons y l =>
      rw [hdone, List.cons_append, List.head?_cons, Option.mem_some_iff] at hx
      exact hhead x (by rw [hdone, List.head?_cons, hx]; rfl)

/-- An answer that a record was queued keeps every record written first when its caller's last
note says the log took it. -/
theorem DurableFirst.append_queued {done : List (Note n)} {k : Nat} {r : ChangeRecord}
    (h : DurableFirst done) (hlast : (notesOf k done).getLast? = some (.wrote k r)) :
    DurableFirst (done ++ [.answered k (.logged r (.ok .queued))]) := by
  intro j
  by_cases hj : j = k
  · subst hj
    obtain ⟨hchain, hhead⟩ := h j
    have hne : notesOf j done ≠ [] := by
      intro hnil
      simp [hnil] at hlast
    rw [notesOf_append, show notesOf j [.answered j (.logged r (.ok .queued))] =
      [.answered j (.logged r (.ok .queued))] by simp [notesOf, Note.caller?]]
    refine ⟨List.isChain_append.2 ⟨hchain, .singleton _, fun x hx y hy r' hr' => ?_⟩, ?_⟩
    · simp only [List.head?_cons, Option.mem_some_iff] at hy
      subst hy
      simp only [Note.queued?, Option.some.injEq] at hr'
      subst hr'
      rw [hlast, Option.mem_some_iff] at hx
      exact hx.symm
    · intro x hx
      obtain ⟨y, l, hyl⟩ := List.exists_cons_of_ne_nil hne
      rw [hyl, List.cons_append, List.head?_cons, Option.mem_some_iff] at hx
      exact hhead x (by rw [hyl, List.head?_cons, hx]; rfl)
  · have hother : notesOf j [(.answered k (.logged r (.ok .queued)) : Note n)] = [] :=
      notesOf_other (by simp [Note.caller?, Ne.symm hj])
    rw [notesOf_append, hother, List.append_nil]
    exact h j

end Notes


/-! ## A session of a coordinator -/

namespace Pool

variable {n : Nat}

/-- Once nothing in a pool moves any more, no thread holds a batch and the caller no residue. -/
theorem Final.held_eq {P : Pool n} (hF : Final P) : P.held = 0 ∧ P.caller.leftover = [] := by
  obtain ⟨report, hc⟩ := hF.finished
  simp [held, hF.out.1, hF.out.2, hc, Worker.holding, Flusher.holding, Caller.holding,
    Caller.leftover]

/-- A stop that found its threads exited reports the queue drained and no residue. -/
theorem Reported.finished {P : Pool n} (hR : Reported P) {report : ShutdownReport}
    {residue : List ChangeRecord} (hc : P.caller = .finished report residue)
    (hexited : report.workersExited = true) : report.drained = true ∧ report.residue = 0 := by
  unfold Reported at hR
  rw [hc] at hR
  obtain ⟨-, -, hdrained, -, hzero⟩ := hR hexited
  exact ⟨hdrained, hzero⟩

end Pool

namespace Coordinator

variable {n : Nat}

/-- At most one pool, sound against the records answered as queued and the batches handed over:
none before the coordinator started, and then the pool of its one session, of batches of `b`. -/
def Holds (b : Nat) (c : Coordinator n) (A : List ChangeRecord) (H : Handed) : Prop :=
  (c.pools = [] ∧ A = [] ∧ H = []) ∨ ∃ P, c.pools = [P] ∧ P.Sound A H ∧ P.processor.batchSize = b

/-- Once a stop that found its threads exited has answered, it reported the queue drained and no
residue, and its pool is final. -/
def Settled (done : List (Note n)) (c : Coordinator n) : Prop :=
  ∀ k report, .answered k (.stopped report) ∈ done → report.workersExited = true →
    report.drained = true ∧ report.residue = 0 ∧ ∃ P, c.pools = [P] ∧ P.Final

theorem pools_singleton {c : Coordinator n} {P P' : Pool n} {g : Nat} (hpools : c.pools = [P])
    (hg : c.pools[g]? = some P') : g = 0 ∧ P' = P := by
  rw [hpools] at hg
  cases g with
  | zero => exact ⟨rfl, by simpa [eq_comm] using hg⟩
  | succ g => simp at hg

theorem Holds.of_pools {b : Nat} {c c' : Coordinator n} {A : List ChangeRecord} {H : Handed}
    (h : c.Holds b A H) (hp : c'.pools = c.pools) : c'.Holds b A H := by
  unfold Holds
  rw [hp]
  exact h

theorem Settled.of_pools {done : List (Note n)} {c c' : Coordinator n} (h : Settled done c)
    (hp : c'.pools = c.pools) : Settled done c' := by
  unfold Settled
  rw [hp]
  exact h

/-- An active coordinator's pools hold its pool. -/
theorem pools_ne_nil {c : Coordinator n} {a : Active n} (ha : c.active = some a) : c.pools ≠ [] := by
  simp [pools, ha]

theorem active_of_pools_nil {c : Coordinator n} (h : c.pools = []) : c.active = none ∧ c.detached = [] := by
  simp only [pools, List.append_eq_nil_iff, Option.toList_eq_nil_iff, Option.map_eq_none_iff] at h
  exact ⟨h.2, h.1⟩

/-- Once a stop is over, the pools are as they were: the running pool is now the last detached. -/
theorem pools_detach {c : Coordinator n} {a : Active n} (ha : c.active = some a) :
    (c.detach a.pool).pools = c.pools := by
  simp [detach, pools, ha]

variable {σ : Type} (save : List ChangeRecord → World σ SaveOutcome) {b : Nat} {c : Coordinator n}
  {A : List ChangeRecord} {w : Machine × σ × Handed} {g : Nat} {P : Pool n}

theorem stepThread_pools (hpools : c.pools = [P]) (hg : c.pools[g]? = some P) (t : Pool.Thread n) :
    (c.stepThread (noting save) g P t w).1.pools =
      [(((P.lend c.recorder).step (noting save) t).run w).1] := by
  obtain ⟨rfl, -⟩ := pools_singleton hpools hg
  rw [stepThread, pools_withPool (by simp [hpools]), hpools]
  rfl

theorem Holds.stepThread (h : c.Holds b A w.2.2) (hP : c.pools[g]? = some P) (t : Pool.Thread n) :
    (c.stepThread (noting save) g P t w).1.Holds b (A ++ P.accepts t)
      (c.stepThread (noting save) g P t w).2.2.2 := by
  rcases h with ⟨hnil, -, -⟩ | ⟨P₀, hpools, hsound, hbatch⟩
  · simp [hnil] at hP
  · obtain ⟨-, rfl⟩ := pools_singleton hpools hP
    refine .inr ⟨_, stepThread_pools save hpools hP t, ?_, ?_⟩
    · exact (hsound.lend c.recorder).step save t
    · rw [(Pool.step_touches (noting save) (P.lend c.recorder) t w).2]
      exact hbatch

theorem Settled.stepThread {done : List (Note n)} (h : Settled done c) (hP : c.pools[g]? = some P)
    (t : Pool.Thread n) : Settled done (c.stepThread (noting save) g P t w).1 := by
  intro k report hk hexited
  obtain ⟨hdrained, hzero, P₀, hpools, hfinal⟩ := h k report hk hexited
  obtain ⟨-, rfl⟩ := pools_singleton hpools hP
  exact ⟨hdrained, hzero, _, stepThread_pools save hpools hP t,
    (hfinal.lend c.recorder).step (noting save) t w⟩

end Coordinator

theorem PipelineConfig.positive_of_validate {c : EntityLog.Config.PipelineConfig}
    (h : c.validate = .ok ()) : 0 < c.workerThreads ∧ 0 < c.batchSize := by
  unfold EntityLog.Config.PipelineConfig.validate at h
  split_ifs at h with hq hw hb
  simp only [beq_iff_eq] at hw hb
  omega

namespace Process

variable {n : Nat} {σ : Type} (save : List ChangeRecord → World σ SaveOutcome)

/-- What holds along a run of one session of a coordinator with batches of `b`, noting `done`: its
pool is sound against the records answered as queued, each of them written to the log first; a
caller about to offer a record has just had the log take it; and a stop that found its threads
exited has answered with its pool final. -/
structure Session (b : Nat) (done : List (Note n)) (Q : Process n) (w : Machine × σ × Handed) :
    Prop where
  batch : Q.coordinator.config.batchSize = b
  holds : Q.coordinator.Holds b (acceptedOf done) w.2.2
  durable : DurableFirst done
  offering : ∀ k r g, Q.callers k = .offering r g → (notesOf k done).getLast? = some (.wrote k r)
  settled : Coordinator.Settled done Q.coordinator

variable {b : Nat} {done : List (Note n)} {Q : Process n} {w : Machine × σ × Handed} {g : Nat}
  {P : Pool n}

/-- A step of a thread that notes nothing about a caller and lets nothing join the queue keeps
the session, whatever it does to the callers but make one offer. -/
theorem Session.thread (hS : Session b done Q w) (hP : Q.coordinator.pools[g]? = some P)
    (t : Pool.Thread n) (hacc : P.accepts t = []) {new : List (Note n)}
    (hnew : ∀ x ∈ new, x.caller? = none) (callers : Nat → Pending)
    (hcallers : ∀ j r g, callers j = .offering r g → Q.callers j = .offering r g) :
    Session b (done ++ new) ⟨(Q.coordinator.stepThread (noting save) g P t w).1, callers⟩
      (Q.coordinator.stepThread (noting save) g P t w).2 := by
  have hquiet : ∀ x ∈ new, x.queued? = none := fun x hx => Note.queued?_of_caller? (hnew x hx)
  have hsame : ∀ j, notesOf j new = [] := fun j => notesOf_other fun x hx => by simp [hnew x hx]
  refine ⟨?_, ?_, hS.durable.append_quiet hquiet, fun j r g hj => ?_, fun k report hk => ?_⟩
  · simpa [Coordinator.stepThread] using hS.batch
  · have hholds := hS.holds.stepThread save hP t
    rwa [hacc, List.append_nil, ← List.append_nil (acceptedOf done), ← acceptedOf_quiet hquiet,
      ← acceptedOf_append] at hholds
  · rw [notesOf_append, hsame, List.append_nil]
    exact hS.offering j r g (hcallers j r g hj)
  · have hold : Note.answered k (.stopped report) ∈ done := by
      rcases List.mem_append.1 hk with hk | hk
      · exact hk
      · exact absurd (hnew _ hk) (by simp [Note.caller?])
    exact (hS.settled.stepThread save hP t) k report hold

/-- An answer that queues nothing and reports no stop that found its threads exited, from a
coordinator with the same pools, keeps the session. -/
theorem Session.answered (hS : Session b done Q w) {c' : Coordinator n}
    {w' : Machine × σ × Handed} (k : Nat) (a : Answer) (callers : Nat → Pending)
    (hconfig : c'.config = Q.coordinator.config) (hpools : c'.pools = Q.coordinator.pools)
    (hw : w'.2 = w.2) (hq : ∀ r, a ≠ .logged r (.ok .queued))
    (hstop : ∀ report, a = .stopped report → report.workersExited = false)
    (hcallers : ∀ j r g, callers j = .offering r g → j ≠ k ∧ Q.callers j = .offering r g) :
    Session b (done ++ [.answered k a]) ⟨c', callers⟩ w' := by
  have hquiet : ∀ x ∈ [(Note.answered k a : Note n)], x.queued? = none := by
    simp [Note.queued?_answered hq]
  refine ⟨hconfig ▸ hS.batch, ?_, hS.durable.append_quiet hquiet, fun j r g hj => ?_,
    fun k' report hk' hexited => ?_⟩
  · rw [acceptedOf_append, acceptedOf_quiet hquiet, List.append_nil, hw]
    exact hS.holds.of_pools hpools
  · obtain ⟨hjk, hj⟩ := hcallers j r g hj
    rw [notesOf_append_other done (by simp [Note.caller?, Ne.symm hjk])]
    exact hS.offering j r g hj
  · rcases List.mem_append.1 hk' with hk' | hk'
    · exact (hS.settled.of_pools hpools) k' report hk' hexited
    · simp only [List.mem_singleton, Note.answered.injEq] at hk'
      rw [hstop report hk'.2.symm] at hexited
      cases hexited

/-- The log taking a record for caller `k`, who offers it next, keeps the session. -/
theorem Session.wrote (hS : Session b done Q w) {c' : Coordinator n} {w' : Machine × σ × Handed}
    (k : Nat) (hk : Q.callers k = .idle) (r : ChangeRecord) (g : Nat)
    (hconfig : c'.config = Q.coordinator.config) (hpools : c'.pools = Q.coordinator.pools)
    (hw : w'.2 = w.2) :
    Session b (done ++ [.wrote k r]) ({ Q with coordinator := c' }.withCaller k (.offering r g))
      w' := by
  have hquiet : ∀ x ∈ [(Note.wrote k r : Note n)], x.queued? = none := by simp [Note.queued?]
  refine ⟨hconfig ▸ hS.batch, ?_, hS.durable.append_quiet hquiet, fun j r' g' hj => ?_,
    fun k' report hk' hexited => ?_⟩
  · rw [acceptedOf_append, acceptedOf_quiet hquiet, List.append_nil, hw]
    exact hS.holds.of_pools hpools
  · by_cases hjk : j = k
    · subst hjk
      simp only [withCaller_self, Pending.offering.injEq] at hj
      rw [hj.1]
      simp [notesOf, Note.caller?]
    · rw [withCaller_other _ hjk] at hj
      rw [notesOf_append_other done (by simp [Note.caller?, Ne.symm hjk])]
      exact hS.offering j r' g' hj
  · rcases List.mem_append.1 hk' with hk' | hk'
    · exact (hS.settled.of_pools hpools) k' report hk' hexited
    · simp at hk'

/-- An offer to the pool keeps the session, with its record accepted when the queue took it. -/
theorem Session.offer (hS : Session b done Q w) (k : Nat) {r : ChangeRecord}
    (hk : Q.callers k = .offering r g) (hP : Q.coordinator.pools[g]? = some P) :
    Session b (done ++ [.answered k (.logged r (.ok (if (P.processor.queue.offer r).2 then
        .queued else .dropped)))])
      ({ Q with coordinator := (Q.coordinator.stepThread (noting save) g P (.producer r) w).1 }.withCaller k .idle)
      (Q.coordinator.stepThread (noting save) g P (.producer r) w).2 := by
  refine ⟨?_, ?_, ?_, fun j r' g' hj => ?_, fun k' report hk' hexited => ?_⟩
  · simpa [Coordinator.stepThread] using hS.batch
  · rw [acceptedOf_append, acceptedOf_offer]
    exact hS.holds.stepThread save hP _
  · -- the offer's record is the one the log took last for this caller
    split
    · exact hS.durable.append_queued (hS.offering k r g hk)
    · exact hS.durable.append_quiet (by simp [Note.queued?])
  · have hjk : j ≠ k := by
      rintro rfl
      simp at hj
    rw [withCaller_other _ hjk] at hj
    rw [notesOf_append_other done (by simp [Note.caller?, Ne.symm hjk])]
    exact hS.offering j r' g' hj
  · rcases List.mem_append.1 hk' with hk' | hk'
    · exact (hS.settled.stepThread save hP _) k' report hk' hexited
    · simp at hk'

/-- The end of a stop keeps the session; a stop that found its threads exited leaves its pool
final and reports the queue drained with no residue. -/
theorem Session.stopEnd (hS : Session b done Q w) (k : Nat) (hk : Q.callers k = .stopping)
    {a : Active n} (ha : Q.coordinator.active = some a) {report : ShutdownReport}
    {residue : List ChangeRecord} (hf : a.pool.caller = .finished report residue) (m : Machine) :
    Session b (done ++ [.answered k (.stopped report)])
      ({ Q with coordinator := Q.coordinator.detach a.pool }.withCaller k .idle) (m, w.2) := by
  have hpools := Coordinator.pools_detach ha
  have hquiet : ∀ x ∈ [(Note.answered k (.stopped report) : Note n)], x.queued? = none := by
    simp [Note.queued?]
  refine ⟨hS.batch, ?_, hS.durable.append_quiet hquiet, fun j r g hj => ?_,
    fun k' report' hk' hexited => ?_⟩
  · rw [acceptedOf_append, acceptedOf_quiet hquiet, List.append_nil]
    exact hS.holds.of_pools hpools
  · have hjk : j ≠ k := by
      rintro rfl
      simp at hj
    rw [withCaller_other _ hjk] at hj
    rw [notesOf_append_other done (by simp [Note.caller?, Ne.symm hjk])]
    exact hS.offering j r g hj
  · rcases List.mem_append.1 hk' with hk' | hk'
    · exact (hS.settled.of_pools hpools) k' report' hk' hexited
    · simp only [List.mem_singleton, Note.answered.injEq, Answer.stopped.injEq] at hk'
      obtain ⟨-, rfl⟩ := hk'
      -- the stopped pool is the session's one pool, sound all along
      rcases hS.holds with ⟨hnil, -, -⟩ | ⟨P, hone, hsound, -⟩
      · exact absurd hnil (Coordinator.pools_ne_nil ha)
      · have hP : P = a.pool :=
          (Coordinator.pools_singleton hone (Coordinator.pools_active ha)).2.symm
        subst hP
        obtain ⟨hdrained, hzero⟩ := hsound.reported.finished hf hexited
        exact ⟨hdrained, hzero, _, hpools.trans hone,
          hsound.reported.final hsound.closesFirst hf hexited⟩

/-- The start of a coordinator that never ran begins the session. -/
theorem Session.start (hS : Session b done Q w) (hnone : Q.coordinator.pools = []) (k : Nat)
    (hk : Q.callers k = .idle) {r : Except LifecycleError Unit} {c' : Coordinator n}
    {w' : Machine × σ × Handed}
    (h : ((Coordinator.start (σ := σ × Handed)).run Q.coordinator).run w = ((r, c'), w')) :
    Session b (done ++ [.answered k (.started r)]) { Q with coordinator := c' } w' := by
  obtain ⟨hactive, hdetached⟩ := Coordinator.active_of_pools_nil hnone
  obtain ⟨hw, hconfig, -, hdet, hstarted⟩ := Coordinator.start_spec h hactive
  have hquiet : ∀ x ∈ [(Note.answered k (.started r) : Note n)], x.queued? = none := by
    simp [Note.queued?]
  have hempty : acceptedOf done = [] ∧ w.2.2 = [] := by
    rcases hS.holds with ⟨-, hA, hH⟩ | ⟨P, hone, -⟩
    · exact ⟨hA, hH⟩
    · simp [hnone] at hone
  refine ⟨hconfig ▸ hS.batch, ?_, hS.durable.append_quiet hquiet, fun j r' g' hj => ?_,
    fun k' report hk' hexited => ?_⟩
  · rw [acceptedOf_append, acceptedOf_quiet hquiet, List.append_nil, hempty.1, hw, hempty.2]
    rcases hstarted with hnone' | ⟨hvalid, -, log, hlog⟩
    · exact .inl ⟨by simp [Coordinator.pools, hnone', hdet, hdetached], rfl, rfl⟩
    · obtain ⟨hn, hb⟩ := PipelineConfig.positive_of_validate hvalid
      let p : Processor := ⟨BoundedQueue.empty Q.coordinator.config.queueCapacity,
        Q.coordinator.recorder, Q.coordinator.config.batchSize⟩
      exact .inr ⟨Pool.spawn p Q.coordinator.config.shutdown.finalFlushRounds,
        by simp [Coordinator.pools, hlog, hdet, hdetached, p],
        Pool.Sound.spawn _ _ rfl (Q.coordinator.sized ▸ hn) hb, hS.batch⟩
  · have hjk : j ≠ k := by
      rintro rfl
      simp [hk] at hj
    rw [notesOf_append_other done (by simp [Note.caller?, Ne.symm hjk])]
    exact hS.offering j r' g' hj
  · rcases List.mem_append.1 hk' with hk' | hk'
    · obtain ⟨-, -, P, hone, -⟩ := hS.settled k' report hk' hexited
      simp [hnone] at hone
    · simp at hk'

theorem withCaller_offering {k j : Nat} {p : Pending} (hp : ∀ r g, p ≠ .offering r g)
    {r : ChangeRecord} {g : Nat} (h : (Q.withCaller k p).callers j = .offering r g) :
    j ≠ k ∧ Q.callers j = .offering r g := by
  by_cases hjk : j = k
  · subst hjk
    rw [withCaller_self] at h
    exact absurd h (hp r g)
  · rw [withCaller_other _ hjk] at h
    exact ⟨hjk, h⟩

theorem joinNote_of_joining {c : Coordinator n} {a : Active n} (ha : c.active = some a)
    (hj : a.pool.caller = .joining) : joinNote c = [.joined c.detached.length a.pool.stragglers] := by
  simp [joinNote, ha, hj]

theorem joinNote_quiet (c : Coordinator n) : ∀ x ∈ joinNote c, x.caller? = none := by
  unfold joinNote
  split
  · split <;> simp [Note.caller?]
  · simp

/-- Every step of a session keeps it, but a second start. -/
theorem Session.step {e : Event} {new : List (Note n)} {Q' : Process n}
    {w' : Machine × σ × Handed} (hS : Session b done Q w)
    (hstart : ∀ k, e = .call k .start → Q.coordinator.pools = [])
    (ht : Takes (noting save) e Q w new Q' w') : Session b (done ++ new) Q' w' := by
  cases ht with
  | skip => rwa [List.append_nil]
  | answer k a hk ha =>
    refine hS.answered k a Q.callers rfl rfl rfl ?_ ?_ fun j r g hj => ⟨?_, hj⟩
    · rcases ha with rfl | ⟨q, rfl⟩ | ⟨ck, rfl⟩ <;> simp
    · rcases ha with rfl | ⟨q, rfl⟩ | ⟨ck, rfl⟩ <;> simp
    · rintro rfl
      simp [hk] at hj
  | start k hk h => exact hS.start (hstart k rfl) k hk h
  | beginStop k hk ha hrun =>
    exact hS.thread save (Coordinator.pools_active ha) .caller rfl (by simp) _
      fun j r g hj => (withCaller_offering (by simp) hj).2
  | logAnswered k hk h =>
    obtain ⟨hw, hpools, hconfig, -, hres, -⟩ := Coordinator.write_spec h
    refine hS.answered k _ Q.callers hconfig hpools hw (fun r' heq => ?_) (by simp)
      fun j r g hj => ⟨?_, hj⟩
    · simp only [Answer.logged.injEq] at heq
      exact hres _ rfl heq.2
    · rintro rfl
      simp [hk] at hj
  | logWritten k hk h =>
    obtain ⟨hw, hpools, hconfig, -⟩ := Coordinator.write_spec h
    exact hS.wrote k hk _ _ hconfig hpools hw
  | offer k hk hP => exact hS.offer save k hk hP
  | offerLost k hk hP =>
    exact hS.answered k _ _ rfl rfl rfl (by simp) (by simp)
      fun j r g hj => withCaller_offering (by simp) hj
  | stopStep k hk ha hf =>
    exact hS.thread save (Coordinator.pools_active ha) .caller rfl (joinNote_quiet _) Q.callers
      fun j r g hj => hj
  | stopEnd k hk ha hf => exact hS.stopEnd k hk ha hf _
  | stopGone k hk ha =>
    exact hS.answered k _ _ rfl rfl rfl (by simp) (fun report h => by cases h; rfl)
      fun j r g hj => withCaller_offering (by simp) hj
  | worker g i hi hP => exact hS.thread save hP _ rfl (by simp) Q.callers fun j r g hj => hj
  | flusher g hP =>
    exact hS.thread save hP .flusher rfl (by split <;> simp [Note.caller?]) Q.callers
      fun j r g hj => hj

/-- A coordinator that never ran begins with nothing noted, queued or handed over. -/
theorem Session.fresh (config : EntityLog.Config.PipelineConfig) (recorder : Recorder)
    (m : Machine) (s : σ) :
    Session config.batchSize [] (new (Coordinator.new config recorder)) (m, s, []) :=
  ⟨rfl, .inl ⟨rfl, rfl, rfl⟩, DurableFirst.nil, fun k r g hk => by simp [new] at hk,
    fun k report hk => by simp at hk⟩

/-- What a session has delivered: every record answered as queued was written to the log first;
the batches handed over are distinct pieces, each nonempty and at most a batch long, of a front
of the records answered as queued in the order answered; and once a stop that found its threads
exited has answered, the pieces are exactly the batches handed over and cover every record
answered as queued, and the stop reported the queue drained with no residue. -/
theorem Session.delivered (hS : Session b done Q w) :
    DurableFirst done ∧ ∃ pieces : List (List ChangeRecord),
      (∀ x ∈ pieces, x ≠ [] ∧ x.length ≤ b) ∧
      (w.2.2 : Multiset (List ChangeRecord)) ≤ pieces ∧ pieces.flatten <+: acceptedOf done ∧
      ∀ k report, .answered k (.stopped report) ∈ done → report.workersExited = true →
        (w.2.2 : Multiset (List ChangeRecord)) = pieces ∧ pieces.flatten = acceptedOf done ∧
          report.drained = true ∧ report.residue = 0 := by
  refine ⟨hS.durable, ?_⟩
  rcases hS.holds with ⟨hnil, hA, hH⟩ | ⟨P, hone, hsound, hbatch⟩
  · -- before the start nothing was queued, and no stop answered
    refine ⟨[], by simp, by simp [hH], by simp, fun k report hk hexited => ?_⟩
    obtain ⟨-, -, P, hone, -⟩ := hS.settled k report hk hexited
    simp [hnil] at hone
  · obtain ⟨pieces, hsizes, hmult, hflat⟩ := hsound.delivers.pieces
    refine ⟨pieces, fun x hx => hbatch ▸ hsizes x hx, hmult ▸ Multiset.le_add_right _ _,
      ⟨_, by rw [← List.append_assoc]; exact hflat⟩, fun k report hk hexited => ?_⟩
    obtain ⟨hdrained, hzero, P', hone', hfinal⟩ := hS.settled k report hk hexited
    obtain rfl : P' = P := by simpa [hone] using hone'.symm
    obtain ⟨hheld, hleft⟩ := hfinal.held_eq
    refine ⟨?_, ?_, hdrained, hzero⟩
    · rw [← hmult, hheld, add_zero]
    · rw [← hflat, hleft, hfinal.empty, List.append_nil, List.append_nil]

/-- Exactly-once delivery from the front. A coordinator starts once and then takes any schedule
of calls by any number of callers, steps of its workers and flusher, and stops, with a sink that
notes every batch it is handed, whatever it answers. Every record answered as queued was written
to the log first. The batches handed to the sink are distinct pieces, each nonempty and at most a
batch long, of a front of the records answered as queued, in the order answered. Once a stop
that found its threads exited has answered, every record answered as queued was handed over
exactly once, and the stop reported the queue drained and no residue. -/
theorem schedule_deliversExactlyOnce (config : EntityLog.Config.PipelineConfig)
    (recorder : Recorder) (k₀ : Nat) (events : List Event)
    (honce : ∀ e ∈ events, ∀ k, e ≠ .call k .start) (m m' : Machine) (s s' : σ)
    (notes : List (Note config.workerThreads)) (Q : Process config.workerThreads)
    (handed : Handed)
    (hrun : ((run (noting save) (.call k₀ .start :: events)).run
        (new (Coordinator.new config recorder))).run (m, s, []) = ((notes, Q), (m', s', handed))) :
    DurableFirst notes ∧ ∃ pieces : List (List ChangeRecord),
      (∀ x ∈ pieces, x ≠ [] ∧ x.length ≤ config.batchSize) ∧
      (handed : Multiset (List ChangeRecord)) ≤ pieces ∧ pieces.flatten <+: acceptedOf notes ∧
      ∀ k report, .answered k (.stopped report) ∈ notes → report.workersExited = true →
        (handed : Multiset (List ChangeRecord)) = pieces ∧ pieces.flatten = acceptedOf notes ∧
          report.drained = true ∧ report.residue = 0 := by
  have hS := Takes.run_started (noting save) (Session (σ := σ) config.batchSize)
    (fun hstart hS ht => hS.step save hstart ht) k₀ events honce rfl
    (Session.fresh config recorder m s) hrun
  exact hS.delivered

/-- Two workers with batches of two: three records logged by two callers, then a stop while the
first worker drains the closed queue and the second finds it empty. -/
theorem schedule_deliversExactlyOnce_twoWorkers :
    let r : Nat → ChangeRecord := fun i =>
      ⟨⟨i⟩, ⟨"T", toString i⟩, .create, .empty, Time.Instant.ofMillis 0, none⟩
    let config : EntityLog.Config.PipelineConfig :=
      { batchSize := 2, workerThreads := 2, walPath := "x.log" }
    let events : List Event := [.call 1 (.log (r 1)), .call 2 (.log (r 2)), .resume 1, .resume 2,
      .call 1 (.log (r 3)), .resume 1, .call 0 .stop, .resume 0, .worker 0 0, .worker 0 0,
      .worker 0 0, .worker 0 0, .worker 0 0, .worker 0 0, .worker 0 0, .worker 0 1, .worker 0 1,
      .worker 0 1, .flusher 0, .resume 0, .resume 0, .resume 0, .resume 0, .resume 0, .resume 0]
    let out := ((run (noting fun _ => pure SaveOutcome.saved) (.call 0 .start :: events)).run
      (new (Coordinator.new config (.live {})))).run (({ disk := {} } : Machine), (), [])
    (∀ e ∈ events, ∀ k, e ≠ .call k .start) ∧ DurableFirst out.1.1 ∧
      ∃ pieces : List (List ChangeRecord),
        (∀ x ∈ pieces, x ≠ [] ∧ x.length ≤ config.batchSize) ∧
        (out.2.2.2 : Multiset (List ChangeRecord)) ≤ pieces ∧
        pieces.flatten <+: acceptedOf out.1.1 ∧
        ∀ k report, .answered k (.stopped report) ∈ out.1.1 → report.workersExited = true →
          (out.2.2.2 : Multiset (List ChangeRecord)) = pieces ∧
            pieces.flatten = acceptedOf out.1.1 ∧ report.drained = true ∧ report.residue = 0 := by
  intro r config events out
  have honce : ∀ e ∈ events, ∀ k, e ≠ .call k .start := by simp [events]
  rcases hout : out with ⟨⟨notes, Q⟩, m', s', handed⟩
  exact ⟨honce, schedule_deliversExactlyOnce _ config (.live {}) 0 events honce _ _ _ _ _ _ _ hout⟩

end Process

end EntityLog.Pipeline
