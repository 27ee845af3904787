import EntityLog.Proofs.Pipeline.Delivery
import EntityLog.Proofs.Pipeline.FinalFlush
/-!
# One worker cuts the accepted records into chunks

With a single worker and a flusher that never fires, a batch leaves the queue only in the
worker's hands or, once the worker has returned, in the caller's final flush. Before the stop
closes the queue the worker takes a batch only after it saw a full one queued, and nobody else
takes records, so the batches handed over, then the one in hand, then the queue cut into chunks
are the accepted records cut into chunks of a batch (`Chunked`). Once the stop is over nothing
is in hand or queued, and the batches handed over are exactly those chunks
(`schedule_batchesChunkAccepted`).
-/

namespace EntityLog.Pipeline

open EntityLog.Files EntityLog.Record EntityLog.Log

/-! ## Chunks of a list -/

section Chunks

variable {α : Type} {b : Nat}

theorem flatten_toChunks (hb : 0 < b) (xs : List α) : (xs.toChunks b).flatten = xs := by
  by_cases hxs : xs = []
  · simp [hxs]
  · rw [toChunks_eq_cons hb hxs, List.flatten_cons, flatten_toChunks hb (xs.drop b),
      List.take_append_drop]
termination_by xs.length
decreasing_by
  have : xs.length ≠ 0 := by simpa using hxs
  simp only [List.length_drop]
  omega

/-- Every chunk but the last is full. -/
theorem toChunks_dropLast_full (hb : 0 < b) (xs : List α) :
    ∀ x ∈ (xs.toChunks b).dropLast, x.length = b := by
  by_cases hxs : xs = []
  · simp [hxs]
  · rw [toChunks_eq_cons hb hxs]
    by_cases hrest : xs.drop b = []
    · simp [hrest]
    · -- more records follow the first chunk, so it took a whole batch
      have hlong : b < xs.length := by
        simpa using hrest
      rw [toChunks_eq_cons hb hrest, List.dropLast_cons_of_ne_nil (by simp), ← toChunks_eq_cons hb hrest]
      intro x hx
      rcases List.mem_cons.1 hx with rfl | hx
      · simp only [List.length_take]
        omega
      · exact toChunks_dropLast_full hb (xs.drop b) x hx
termination_by xs.length
decreasing_by
  have : xs.length ≠ 0 := by simpa using hxs
  simp only [List.length_drop]
  omega

/-- A front of the chunks of a list: all of its batches but the last are full. -/
theorem full_of_prefix_toChunks (hb : 0 < b) {xs : List α} {front rest : List (List α)}
    (h : front ++ rest = xs.toChunks b) : ∀ x ∈ front.dropLast, x.length = b := by
  intro x hx
  apply toChunks_dropLast_full hb xs
  rw [← h]
  by_cases hrest : rest = []
  · rw [hrest, List.append_nil]
    exact hx
  · rw [List.dropLast_append_of_ne_nil hrest]
    exact List.mem_append_left _ (List.mem_of_mem_dropLast hx)

end Chunks

/-- Taking a batch off the front of a list cut into chunks: the first chunk, unless there is
none. -/
theorem toChunks_take_drop {b : Nat} (hb : 0 < b) (xs : List ChangeRecord) :
    xs.toChunks b = nonemptyBatch (xs.take b) ++ (xs.drop b).toChunks b := by
  by_cases hxs : xs = []
  · simp [hxs, nonemptyBatch]
  · have hne : (xs.take b).isEmpty = false := by
      simp only [List.isEmpty_eq_false_iff, ne_eq, List.take_eq_nil_iff, not_or]
      exact ⟨by omega, hxs⟩
    rw [toChunks_eq_cons hb hxs, nonemptyBatch, hne]
    rfl

/-- The batch a worker holds. -/
def Worker.batch : Worker → List ChangeRecord
  | .handing batch _ => batch
  | _ => []

/-- The batch the caller holds in its final flush. -/
def Caller.batch : Caller → List ChangeRecord
  | .handing batch _ _ => batch
  | _ => []

/-- Whether the caller is done waiting for the threads. -/
def Caller.pastJoin : Caller → Bool
  | .waiting _ | .flushing _ _ | .handing _ _ _ | .finished _ _ => true
  | _ => false

namespace Pool

variable {n : Nat}

/-- The batches in the threads' hands, the workers' first. -/
def inHand (P : Pool n) : List (List ChangeRecord) :=
  (List.finRange n).flatMap (fun i => nonemptyBatch (P.workers i).batch) ++
    nonemptyBatch P.caller.batch

/-- What a run lets thread `t` do: the flusher does not fire, and the caller stops waiting for the
threads only once every worker has returned. -/
def Fits (P : Pool n) : Thread n → Prop
  | .flusher => P.flusher = .waiting → P.signalled = true
  | .caller => P.caller = .joining → ∀ i, Thread.worker i ∉ P.stragglers
  | _ => True

/-- The accepted records, cut into chunks of `b`, are the batches handed over, then the one in
hand, then the rest cut into chunks: each batch handed over or in hand is at most a batch long,
and a short one was taken only once the queue was closed. -/
structure Chunked (b : Nat) (P : Pool n) (accepted : List ChangeRecord) (handed : Handed) :
    Prop where
  order : handed ++ P.inHand ++ (P.caller.leftover ++ P.processor.queue.items).toChunks b =
    accepted.toChunks b
  sizes : ∀ x ∈ handed ++ P.inHand, x.length ≤ b
  short : ∀ x ∈ handed ++ P.inHand, x.length < b → P.processor.queue.closed = true
  flusher : P.flusher = .waiting ∨ P.flusher = .exited
  checked : ∀ i, P.workers i = .draining false → b ≤ P.processor.queue.size
  alone : P.caller.pastJoin = true → ∀ i, P.workers i = .returned
  residue : P.caller.leftover = []

section One

variable (hn : n = 1)
include hn

theorem eq_of_one (i j : Fin n) : i = j := by
  subst hn
  exact Subsingleton.elim i j

theorem inHand_of_one (P : Pool n) (i : Fin n) :
    P.inHand = nonemptyBatch (P.workers i).batch ++ nonemptyBatch P.caller.batch := by
  have hrange : List.finRange n = [i] := by
    subst hn
    rw [show i = 0 from Subsingleton.elim i 0]
    rfl
  simp [inHand, hrange]

end One

theorem Caller.batch_of_pastJoin {c : Caller} (h : c.pastJoin = false) : c.batch = [] := by
  cases c <;> simp_all [Caller.pastJoin, Caller.batch]

theorem worker_mem_stragglers (P : Pool n) (i : Fin n) :
    Thread.worker i ∈ P.stragglers ↔ P.workers i ≠ .returned := by
  simp [stragglers]

theorem afterHanding_batch (batch : List ChangeRecord) (afterStop : Bool) :
    (Worker.afterHanding batch afterStop).batch = [] := by
  cases afterStop with
  | false => rfl
  | true =>
    show (if batch.isEmpty then Worker.returned else .draining true).batch = []
    split <;> rfl

theorem afterHanding_ne_draining (batch : List ChangeRecord) (afterStop : Bool) :
    Worker.afterHanding batch afterStop ≠ .draining false := by
  cases afterStop with
  | false => simp [Worker.afterHanding]
  | true =>
    show (if batch.isEmpty then Worker.returned else .draining true) ≠ _
    split <;> simp

section Steps

variable {σ : Type} (save : List ChangeRecord → World σ SaveOutcome) {b : Nat} {P : Pool n}
  {A : List ChangeRecord} {w : Machine × σ × Handed}

/-- A step that moves no record between the queue and the threads' hands keeps the chunks. -/
theorem Chunked.of_eq {P' : Pool n} {H H' : Handed} (hC : Chunked b P A H)
    (hlist : H' ++ P'.inHand = H ++ P.inHand)
    (hrest : P'.caller.leftover ++ P'.processor.queue.items =
      P.caller.leftover ++ P.processor.queue.items)
    (hclosed : P.processor.queue.closed = true → P'.processor.queue.closed = true)
    (hflusher : P'.flusher = .waiting ∨ P'.flusher = .exited)
    (hchecked : ∀ i, P'.workers i = .draining false → b ≤ P'.processor.queue.size)
    (halone : P'.caller.pastJoin = true → ∀ i, P'.workers i = .returned)
    (hres : P'.caller.leftover = []) : Chunked b P' A H' :=
  ⟨by rw [hlist, hrest]; exact hC.order, hlist ▸ hC.sizes,
    fun x hx hshort => hclosed (hC.short x (hlist ▸ hx) hshort), hflusher, hchecked, halone, hres⟩

/-- Taking a batch off the front of the queue into hands that held none keeps the chunks, when a
short batch is taken only from a closed queue. -/
theorem Chunked.take {P' : Pool n} {H : Handed} (hb : 0 < b) (hC : Chunked b P A H)
    (hnone : P.inHand = [])
    (hlist : P'.inHand = nonemptyBatch (P.processor.queue.items.take b))
    (hitems : P'.processor.queue.items = P.processor.queue.items.drop b)
    (hclosed : P'.processor.queue.closed = P.processor.queue.closed)
    (hshort : (P.processor.queue.items.take b).length < b → P.processor.queue.closed = true)
    (hcaller : P'.caller = P.caller) (hflusher : P'.flusher = .waiting ∨ P'.flusher = .exited)
    (hchecked : ∀ i, P'.workers i = .draining false → b ≤ P'.processor.queue.size)
    (halone : P'.caller.pastJoin = true → ∀ i, P'.workers i = .returned) :
    Chunked b P' A H := by
  have hres := hC.residue
  refine ⟨?_, fun x hx => ?_, fun x hx hx' => ?_, hflusher, hchecked, halone, hcaller ▸ hres⟩
  · have horder := hC.order
    rw [hnone, hres, List.nil_append, List.append_nil, toChunks_take_drop hb] at horder
    rw [hlist, hitems, hcaller, hres, List.nil_append, List.append_assoc]
    exact horder
  · rw [hlist] at hx
    rcases List.mem_append.1 hx with hx | hx
    · exact hC.sizes x (by simp [hnone, hx])
    · rw [(mem_nonemptyBatch hx).1]
      exact List.length_take_le _ _
  · rw [hclosed]
    rw [hlist] at hx
    rcases List.mem_append.1 hx with hx | hx
    · exact hC.short x (by simp [hnone, hx]) hx'
    · rw [(mem_nonemptyBatch hx).1] at hx'
      exact hshort hx'

theorem Chunked.workerStep (hn : n = 1) (hS : Sound P A w.2.2) (hC : Chunked b P A w.2.2)
    (hb : P.processor.batchSize = b) (i : Fin n) :
    Chunked b ((P.workerStep (noting save) i).run w).1 A
      ((P.workerStep (noting save) i).run w).2.2.2 := by
  -- a worker still in its loop means the caller is not past waiting for it
  have hcaller : P.workers i ≠ .returned → P.caller.batch = [] := fun hret =>
    Caller.batch_of_pastJoin (by
      cases hpast : P.caller.pastJoin
      · rfl
      · exact absurd (hC.alone hpast i) hret)
  have hret' : ∀ {x}, P.workers i = x → x ≠ .returned → P.caller.pastJoin = true → False :=
    fun hx hne hpast => hne (hx ▸ hC.alone hpast i)
  have hquiet : ∀ {w'}, (P.workers i).batch = [] → w'.batch = [] →
      (P.setWorker i w').inHand = P.inHand := fun hold hnew => by
    rw [inHand_of_one hn _ i, inHand_of_one hn P i]
    simp [Pool.setWorker, hold, hnew]
  cases hi : P.workers i with
  | polling =>
    rw [workerStep_run_polling _ _ hi]
    have hnew : (if P.signalled then Worker.draining true else .checking).batch = [] := by
      split <;> rfl
    refine hC.of_eq (by rw [hquiet (by rw [hi]; rfl) hnew]) rfl id hC.flusher (fun j hj => ?_)
      (fun hpast => (hret' hi (by simp) hpast).elim) hC.residue
    rw [eq_of_one hn j i] at hj
    simp only [Pool.setWorker, ↓reduceIte] at hj
    split at hj <;> simp at hj
  | checking =>
    rw [workerStep_run_checking _ _ hi]
    have hnew : (if P.processor.queue.size ≥ P.processor.batchSize then Worker.draining false
        else .polling).batch = [] := by
      split <;> rfl
    refine hC.of_eq (by rw [hquiet (by rw [hi]; rfl) hnew]) rfl id hC.flusher (fun j hj => ?_)
      (fun hpast => (hret' hi (by simp) hpast).elim) hC.residue
    rw [eq_of_one hn j i] at hj
    simp only [Pool.setWorker, ↓reduceIte] at hj
    split at hj
    · rename_i hfull
      rw [← hb]
      exact hfull
    · simp at hj
  | draining afterStop =>
    rw [workerStep_run_draining _ _ hi]
    subst hb
    have hcb := hcaller (by simp [hi])
    refine hC.take hS.batch (by rw [inHand_of_one hn P i, hi, hcb]; rfl)
      (by rw [inHand_of_one hn _ i]; simp [Pool.setWorker, Worker.batch, hcb, nonemptyBatch])
      rfl rfl (fun hshort => ?_) rfl hC.flusher (fun j hj => ?_)
      (fun hpast => (hret' hi (by simp) hpast).elim)
    · -- a short batch is taken only past the signal, when the queue is closed
      cases afterStop with
      | false =>
        have hfull := hC.checked i hi
        simp only [List.length_take] at hshort
        simp only [BoundedQueue.size] at hfull
        omega
      | true =>
        have hsignal := hS.closesFirst.workers i (by rw [hi]; rfl)
        exact hS.closesFirst.caller (hS.closesFirst.signal hsignal)
    · rw [eq_of_one hn j i] at hj
      simp [Pool.setWorker] at hj
  | handing batch afterStop =>
    rw [workerStep_run_handing _ _ hi, handed_persist]
    have hcb := hcaller (by simp [hi])
    have hkeep := persist_queue save P.processor batch w
    refine hC.of_eq ?_ (by simp [Pool.setWorker, hkeep.1]) (by simp [hkeep.1]) hC.flusher
      (fun j hj => ?_)
      (fun hpast => (hret' hi (by simp) hpast).elim) hC.residue
    · rw [inHand_of_one hn _ i, inHand_of_one hn P i, hi]
      simp only [Pool.setWorker, ↓reduceIte, afterHanding_batch, hcb]
      simp [Worker.batch, nonemptyBatch]
    · rw [eq_of_one hn j i] at hj
      simp only [Pool.setWorker, ↓reduceIte] at hj
      exact absurd hj (afterHanding_ne_draining batch afterStop)
  | returned =>
    rw [workerStep_run_returned _ _ hi]
    exact hC

theorem Chunked.flusherStep (hC : Chunked b P A w.2.2) (hfit : P.Fits .flusher) :
    Chunked b ((P.flusherStep (noting save)).run w).1 A
      ((P.flusherStep (noting save)).run w).2.2.2 := by
  cases hf : P.flusher with
  | waiting =>
    -- the flusher does not fire: it wakes only to the signal, and leaves its loop
    rw [flusherStep_run_waiting _ _ hf]
    have hsignal : P.signalled = true := hfit hf
    exact hC.of_eq rfl rfl id (.inr (by simp [hsignal])) hC.checked hC.alone hC.residue
  | flushing =>
    have hflusher := hC.flusher
    simp [hf] at hflusher
  | handing batch =>
    have hflusher := hC.flusher
    simp [hf] at hflusher
  | exited =>
    rw [flusherStep_run_exited _ _ hf]
    exact hC

theorem Chunked.callerStep (hn : n = 1) (hS : Sound P A w.2.2) (hC : Chunked b P A w.2.2)
    (hfit : P.Fits .caller) :
    Chunked b ((P.callerStep (noting save)).run w).1 A
      ((P.callerStep (noting save)).run w).2.2.2 := by
  have i : Fin n := ⟨0, by omega⟩
  -- past the join every worker has returned, and its last drain left the queue empty
  have hempty : P.caller.pastJoin = true → P.processor.queue.items = [] := fun hpast =>
    hS.emptied i (by rw [hC.alone hpast i]; rfl)
  have hworkers : P.caller.pastJoin = true → (List.finRange n).flatMap
      (fun j => nonemptyBatch (P.workers j).batch) = [] := fun hpast => by
    simp [hC.alone hpast, Worker.batch, nonemptyBatch]
  simp only [Pool.callerStep]
  cases hc : P.caller with
  | running =>
    simp only [StateT.run_pure, id_pure_eq]
    exact hC.of_eq (by simp [inHand, hc, Caller.batch])
      (by simp [hc, Caller.leftover, BoundedQueue.close]) (fun _ => rfl) hC.flusher hC.checked
      (fun h => by simp [Caller.pastJoin] at h) rfl
  | closed =>
    simp only [StateT.run_pure, id_pure_eq]
    exact hC.of_eq (by simp [inHand, hc, Caller.batch]) (by simp [hc, Caller.leftover]) id
      hC.flusher hC.checked (fun h => by simp [Caller.pastJoin] at h) rfl
  | joining =>
    simp only [StateT.run_pure, id_pure_eq]
    refine hC.of_eq (by simp [inHand, hc, Caller.batch]) (by simp [hc, Caller.leftover]) id
      hC.flusher hC.checked (fun _ j => ?_) rfl
    -- the caller stops waiting only once the worker is out of its loop
    have hout := hfit hc j
    rwa [worker_mem_stragglers, not_not] at hout
  | waiting report =>
    simp only [StateT.run_pure, id_pure_eq]
    have hpast : P.caller.pastJoin = true := by rw [hc]; rfl
    exact hC.of_eq (by simp [inHand, hc, Caller.batch]) (by simp [hc, Caller.leftover]) id
      hC.flusher hC.checked (fun _ => hC.alone hpast) rfl
  | flushing report rounds =>
    have hpast : P.caller.pastJoin = true := by rw [hc]; rfl
    have hnil := hempty hpast
    cases rounds with
    | zero =>
      simp only [StateT.run_pure, id_pure_eq]
      refine hC.of_eq (by simp [inHand, hc, Caller.batch]) ?_ (by split <;> exact id)
        hC.flusher (fun j hj => ?_) (fun _ => hC.alone hpast) ?_
      · simp only [hc, Caller.leftover, BoundedQueue.drainAll, hnil]
        split <;> rfl
      · rw [show P.workers j = .returned from hC.alone hpast j] at hj
        cases hj
      · simp [Caller.leftover, BoundedQueue.drainAll, hnil]
    | succ k =>
      simp only [StateT.run_pure, id_pure_eq]
      refine hC.of_eq ?_ (by simp [hc, Caller.leftover, Processor.takeBatch, BoundedQueue.drain,
        hnil]) id hC.flusher (fun j hj => ?_) (fun _ => hC.alone hpast) rfl
      · simp [inHand, hc, Caller.batch, Processor.takeBatch, BoundedQueue.drain, hnil,
          nonemptyBatch]
      · rw [show P.workers j = .returned from hC.alone hpast j] at hj
        cases hj
  | handing batch report k =>
    simp only [StateT.run_bind, id_bind_eq, StateT.run_pure, id_pure_eq]
    rw [handed_persist]
    have hpast : P.caller.pastJoin = true := by rw [hc]; rfl
    have hkeep := persist_queue save P.processor batch w
    refine hC.of_eq ?_ (by simp [hc, Caller.leftover, hkeep.1]) (by simp [hkeep.1]) hC.flusher
      (fun j hj => ?_) (fun _ => hC.alone hpast) rfl
    · simp only [inHand, hc, Caller.batch, hworkers hpast]
      simp [nonemptyBatch]
    · rw [show P.workers j = .returned from hC.alone hpast j] at hj
      cases hj
  | finished report residue =>
    simp only [StateT.run_pure, id_pure_eq]
    exact hC

theorem offer_closed (p : Processor) (r : ChangeRecord) :
    (p.offer r).queue.closed = p.queue.closed := by
  cases hacc : (p.queue.offer r).2 with
  | false =>
    simp [Processor.offer, hacc, Processor.report, BoundedQueue.offer_of_refused _ hacc]
  | true =>
    simp [Processor.offer, hacc, Processor.report, BoundedQueue.offer_of_accepted _ hacc]

/-- A producer's offer keeps the chunks: a record joins only an open queue, behind full batches. -/
theorem Chunked.offer {H : Handed} (hb : 0 < b) (hC : Chunked b P A H) (r : ChangeRecord) :
    Chunked b { P with processor := P.processor.offer r } (A ++ P.accepts (.producer r)) H := by
  have hitems := offer_items P.processor r
  have hclosed := offer_closed P.processor r
  cases hacc : (P.processor.queue.offer r).2 with
  | false =>
    have hsame : Chunked b { P with processor := P.processor.offer r } A H := hC.of_eq rfl
      (by simp [hitems, hacc]) (fun h => hclosed ▸ h) hC.flusher
      (fun j hj => by simpa [BoundedQueue.size, hitems, hacc] using hC.checked j hj) hC.alone
      hC.residue
    simpa [accepts, hacc] using hsame
  | true =>
    -- the queue is open, so every batch taken so far was full
    have hopen : P.processor.queue.closed = false :=
      ((BoundedQueue.offer_accepted_iff _ r).1 hacc).1
    have hfull : ∀ x ∈ H ++ P.inHand, x.length = b := fun x hx =>
      le_antisymm (hC.sizes x hx) (Nat.not_lt.1 fun hlt => by simp [hC.short x hx hlt] at hopen)
    have hA : A = (H ++ P.inHand).flatten ++ P.processor.queue.items := by
      rw [← flatten_toChunks hb A, ← hC.order, hC.residue]
      simp [flatten_toChunks hb]
    refine ⟨?_, hC.sizes, fun x hx hx' => hclosed ▸ hC.short x hx hx', hC.flusher,
      fun j hj => ?_, hC.alone, hC.residue⟩
    · show H ++ P.inHand ++ (P.caller.leftover ++ (P.processor.offer r).queue.items).toChunks b =
        (A ++ P.accepts (.producer r)).toChunks b
      rw [hitems, hacc, hC.residue, hA]
      simp only [accepts, hacc, if_true, List.nil_append, List.append_assoc]
      rw [toChunks_append_full hb _ _ hfull, List.append_assoc]
    · have hle := hC.checked j hj
      simp only [BoundedQueue.size] at hle ⊢
      rw [hitems, hacc]
      simp only [if_true, List.length_append, List.length_singleton]
      omega

/-- Every step a run lets a thread take keeps the chunks of a pool with one worker. -/
theorem Chunked.step (hn : n = 1) (hS : Sound P A w.2.2) (hC : Chunked b P A w.2.2)
    (hb : P.processor.batchSize = b) (t : Thread n) (hfit : P.Fits t) :
    Chunked b ((P.step (noting save) t).run w).1 (A ++ P.accepts t)
      ((P.step (noting save) t).run w).2.2.2 := by
  cases t with
  | worker i => simpa only [Pool.step, accepts, List.append_nil] using hC.workerStep save hn hS hb i
  | flusher => simpa only [Pool.step, accepts, List.append_nil] using hC.flusherStep save hfit
  | caller => simpa only [Pool.step, accepts, List.append_nil] using hC.callerStep save hn hS hfit
  | producer r => exact hC.offer (hb ▸ hS.batch) r

end Steps

theorem Chunked.lend {P : Pool n} {b : Nat} {A : List ChangeRecord} {H : Handed}
    (hC : Chunked b P A H) (r : Recorder) : Chunked b (P.lend r) A H :=
  ⟨hC.order, hC.sizes, hC.short, hC.flusher, hC.checked, hC.alone, hC.residue⟩

theorem Chunked.spawn (b : Nat) (p : Processor) (rounds : Nat) (hp : p.queue.items = []) :
    Chunked b (Pool.spawn p rounds : Pool n) [] [] := by
  refine ⟨?_, ?_, ?_, .inl rfl, fun _ h => by simp [Pool.spawn] at h,
    fun h => by simp [Pool.spawn, Caller.pastJoin] at h, rfl⟩ <;>
    simp [inHand, Pool.spawn, Worker.batch, Caller.batch, nonemptyBatch, hp, Caller.leftover]

/-- A caller's stop that is over stays over, whatever thread moves. -/
theorem step_isFinished {S : Type} (save : List ChangeRecord → StateM S SaveOutcome) {P : Pool n}
    (hf : P.caller.isFinished = true) (t : Thread n) (w : S) :
    ((P.step save t).run w).1.caller.isFinished = true := by
  by_cases ht : t = .caller
  · subst ht
    obtain ⟨report, residue, hc⟩ : ∃ report residue, P.caller = .finished report residue := by
      cases hc : P.caller <;> simp_all [Caller.isFinished]
    have hsame : ((P.step save .caller).run w).1 = P := by
      simp only [Pool.step, callerStep, hc]
      rfl
    rw [hsame]
    exact hf
  · rw [(step_shared save P ht w).1]
    exact hf

end Pool

namespace Note

variable {n : Nat}

/-- The notes of a run in which the flusher never fired, and every stop found the workers out of
their loops when it stopped waiting for the threads. -/
def Quiet (notes : List (Note n)) : Prop :=
  (∀ g, Note.fired g ∉ notes) ∧
    ∀ g stragglers, Note.joined g stragglers ∈ notes → ∀ i, Pool.Thread.worker i ∉ stragglers

theorem Quiet.left {done new : List (Note n)} (h : Quiet (done ++ new)) : Quiet done :=
  ⟨fun g hg => h.1 g (List.mem_append_left _ hg),
    fun g st hg => h.2 g st (List.mem_append_left _ hg)⟩

theorem Quiet.append {done new : List (Note n)} (h : Quiet done)
    (hnew : ∀ x ∈ new, x.caller? ≠ none) : Quiet (done ++ new) := by
  refine ⟨fun g hg => ?_, fun g st hg => ?_⟩
  · rcases List.mem_append.1 hg with hg | hg
    · exact h.1 g hg
    · exact hnew _ hg rfl
  · rcases List.mem_append.1 hg with hg | hg
    · exact h.2 g st hg
    · exact absurd rfl (hnew _ hg)

end Note

namespace Coordinator

variable {n : Nat}

/-- At most one pool, whose batches handed over and in hand are the first chunks of the records
answered as queued, and whose stop is over once the coordinator stopped. -/
def Chunks (b : Nat) (c : Coordinator n) (A : List ChangeRecord) (H : Handed) : Prop :=
  (c.pools = [] ∧ H = []) ∨
    ∃ P, c.pools = [P] ∧ P.Chunked b A H ∧ (c.active = none → P.caller.isFinished = true)

theorem withPool_active_isSome (c : Coordinator n) (g : Nat) (P : Pool n) :
    (c.withPool g P).active.isSome = c.active.isSome := by
  unfold withPool setPool
  split_ifs <;> simp

variable {b : Nat} {c c' : Coordinator n} {A : List ChangeRecord} {H : Handed}

theorem Chunks.of_pools (h : c.Chunks b A H) (hp : c'.pools = c.pools)
    (ha : c'.active.isSome = c.active.isSome) : c'.Chunks b A H := by
  rcases h with ⟨hnil, hH⟩ | ⟨P, hone, hC, hfin⟩
  · exact .inl ⟨hp.trans hnil, hH⟩
  · refine .inr ⟨P, hp.trans hone, hC, fun hnone => hfin ?_⟩
    rw [hnone, Option.isSome_none, eq_comm, Option.isSome_eq_false_iff, Option.isNone_iff_eq_none] at ha
    exact ha

variable {σ : Type} (save : List ChangeRecord → World σ SaveOutcome) {w : Machine × σ × Handed}
  {g : Nat} {P : Pool n}

theorem Chunks.stepThread (hn : n = 1) (h : c.Chunks b A w.2.2) (hP : c.pools[g]? = some P)
    (hsound : P.Sound A w.2.2) (hb : P.processor.batchSize = b) (t : Pool.Thread n)
    (hfit : P.Fits t) :
    (c.stepThread (noting save) g P t w).1.Chunks b (A ++ P.accepts t)
      (c.stepThread (noting save) g P t w).2.2.2 := by
  rcases h with ⟨hnil, -⟩ | ⟨P₀, hpools, hC, hfin⟩
  · simp [hnil] at hP
  · obtain ⟨-, rfl⟩ := pools_singleton hpools hP
    refine .inr ⟨_, stepThread_pools save hpools hP t,
      (hC.lend c.recorder).step save hn (hsound.lend c.recorder) hb t hfit, fun hnone => ?_⟩
    have hactive := withPool_active_isSome c g
      ((((P.lend c.recorder).step (noting save) t).run w).1)
    have hnone' : (c.withPool g ((((P.lend c.recorder).step (noting save) t).run w).1)).active =
        none := hnone
    rw [hnone', Option.isSome_none, eq_comm, Option.isSome_eq_false_iff,
      Option.isNone_iff_eq_none] at hactive
    exact Pool.step_isFinished (noting save) (P := P.lend c.recorder) (hfin hactive) t w

end Coordinator

namespace Process

variable {n : Nat} {σ : Type} (save : List ChangeRecord → World σ SaveOutcome) {b : Nat}
  {done : List (Note n)} {Q : Process n} {w : Machine × σ × Handed} {g : Nat} {P : Pool n}

/-- The pool of a session is sound, with its batches of `b`. -/
theorem Session.pool (hS : Session b done Q w) (hP : Q.coordinator.pools[g]? = some P) :
    P.Sound (acceptedOf done) w.2.2 ∧ P.processor.batchSize = b := by
  rcases hS.holds with ⟨hnil, -, -⟩ | ⟨P₀, hone, hsound, hb⟩
  · simp [hnil] at hP
  · obtain ⟨-, rfl⟩ := Coordinator.pools_singleton hone hP
    exact ⟨hsound, hb⟩

/-- Every step of a session with one worker keeps its chunks, as long as the flusher does not
fire and a stop waits for the worker. -/
theorem Chunks.step (hn : n = 1) {e : Event} {new : List (Note n)} {Q' : Process n}
    {w' : Machine × σ × Handed} (hS : Session b done Q w)
    (hC : Q.coordinator.Chunks b (acceptedOf done) w.2.2)
    (hstart : ∀ k, e = .call k .start → Q.coordinator.pools = [])
    (hquiet : Note.Quiet (done ++ new)) (ht : Takes (noting save) e Q w new Q' w') :
    Q'.coordinator.Chunks b (acceptedOf (done ++ new)) w'.2.2 := by
  have hthread : ∀ {g : Nat} {P : Pool n} {t : Pool.Thread n} {new : List (Note n)},
      Q.coordinator.pools[g]? = some P → P.Fits t → P.accepts t = [] →
      (∀ x ∈ new, x.caller? = none) →
      (Q.coordinator.stepThread (noting save) g P t w).1.Chunks b (acceptedOf (done ++ new))
        (Q.coordinator.stepThread (noting save) g P t w).2.2.2 := by
    intro g P t new hP hfit hacc hnew
    obtain ⟨hsound, hb⟩ := hS.pool hP
    have hstep := hC.stepThread save hn hP hsound hb t hfit
    rwa [hacc, List.append_nil, ← List.append_nil (acceptedOf done),
      ← acceptedOf_quiet (fun x hx => Note.queued?_of_caller? (hnew x hx)),
      ← acceptedOf_append] at hstep
  have hanswer : ∀ {k : Nat} {a : Answer}, (∀ r, a ≠ .logged r (.ok .queued)) →
      acceptedOf (done ++ [.answered k a]) = acceptedOf done := fun hq => by
    rw [acceptedOf_append, acceptedOf_answered hq, List.append_nil]
  cases ht with
  | skip => rwa [List.append_nil]
  | answer k a hk ha =>
    rw [hanswer (by rcases ha with rfl | ⟨q, rfl⟩ | ⟨ck, rfl⟩ <;> simp)]
    exact hC
  | start k hk h =>
    obtain ⟨hactive, hdetached⟩ := Coordinator.active_of_pools_nil (hstart k rfl)
    obtain ⟨hw, -, -, hdet, hstarted⟩ := Coordinator.start_spec h hactive
    have hH : w.2.2 = [] := by
      rcases hC with ⟨-, hH⟩ | ⟨P, hone, -⟩
      · exact hH
      · simp [hstart k rfl] at hone
    rw [hanswer (by simp)]
    have hA : acceptedOf done = [] := by
      rcases hS.holds with ⟨-, hA, -⟩ | ⟨P, hone, -⟩
      · exact hA
      · simp [hstart k rfl] at hone
    rw [hA, hw, hH]
    rcases hstarted with hnone | ⟨-, -, log, hlog⟩
    · exact .inl ⟨by simp [Coordinator.pools, hnone, hdet, hdetached], rfl⟩
    · let p : Processor := ⟨BoundedQueue.empty Q.coordinator.config.queueCapacity,
        Q.coordinator.recorder, Q.coordinator.config.batchSize⟩
      exact .inr ⟨Pool.spawn p Q.coordinator.config.shutdown.finalFlushRounds,
        by simp [Coordinator.pools, hlog, hdet, hdetached, p], Pool.Chunked.spawn _ _ _ rfl,
        fun h => by simp [hlog] at h⟩
  | beginStop k hk ha hrun =>
    exact hthread (Coordinator.pools_active ha) (fun hj => by rw [hrun] at hj; cases hj) rfl
      (by simp)
  | logAnswered k hk h =>
    obtain ⟨hw, hpools, -, -, hres, -, hact⟩ := Coordinator.write_spec h
    rw [hanswer (fun r' heq => by
      simp only [Answer.logged.injEq] at heq
      exact hres _ rfl heq.2), hw]
    exact hC.of_pools hpools hact
  | logWritten k hk h =>
    obtain ⟨hw, hpools, -, -, -, -, hact⟩ := Coordinator.write_spec h
    rw [acceptedOf_append, acceptedOf_wrote, List.append_nil, hw]
    exact hC.of_pools hpools hact
  | offer k hk hP =>
    obtain ⟨hsound, hb⟩ := hS.pool hP
    rw [acceptedOf_append, acceptedOf_offer]
    exact hC.stepThread save hn hP hsound hb _ trivial
  | offerLost k hk hP =>
    rw [hanswer (by simp)]
    exact hC
  | stopStep k hk ha hf =>
    -- the stop stops waiting for the threads only with the worker out of its loop
    refine hthread (Coordinator.pools_active ha) (fun hj i hi => ?_) rfl (joinNote_quiet _)
    exact hquiet.2 _ _ (List.mem_append_right _ (by
      rw [joinNote_of_joining ha hj]
      exact List.mem_singleton_self _)) i hi
  | stopEnd k hk ha hf =>
    rw [hanswer (by simp)]
    rcases hC with ⟨hnil, -⟩ | ⟨P, hone, hCh, -⟩
    · exact absurd hnil (Coordinator.pools_ne_nil ha)
    · obtain ⟨-, hP⟩ := Coordinator.pools_singleton hone (Coordinator.pools_active ha)
      subst hP
      exact .inr ⟨_, (Coordinator.pools_detach ha).trans hone, hCh,
        fun _ => by rw [hf]; rfl⟩
  | stopGone k hk ha =>
    rw [hanswer (by simp)]
    exact hC
  | worker g i hi hP => exact hthread hP trivial rfl (by simp)
  | flusher g hP =>
    refine hthread hP (fun hwaiting => ?_) rfl (by split <;> simp [Note.caller?])
    -- a flusher that woke without the signal would have fired
    by_contra hsignal
    rw [Bool.not_eq_true] at hsignal
    apply hquiet.1 g
    simp [hwaiting, hsignal]

theorem Coordinator.active_of_phase {c : Coordinator n} (h : c.phase = .stopped) :
    c.active = none := by
  unfold Coordinator.phase at h
  cases ha : c.active with
  | none => rfl
  | some a =>
    simp only [ha] at h
    split at h <;> cases h

/-- What the chunks of a session say: the batches handed over are the first chunks of the
records answered as queued, all full but the last, and all of them once the coordinator
stopped. -/
theorem Chunks.batches (hn : n = 1) (hS : Session b done Q w)
    (hC : Q.coordinator.Chunks b (acceptedOf done) w.2.2) :
    (∃ rest, w.2.2 ++ rest = (acceptedOf done).toChunks b) ∧
      (∀ x ∈ w.2.2.dropLast, x.length = b) ∧
      (Q.coordinator.phase = .stopped → w.2.2 = (acceptedOf done).toChunks b) := by
  rcases hC with ⟨hnil, hH⟩ | ⟨P, hone, hCh, hfin⟩
  · have hA : acceptedOf done = [] := by
      rcases hS.holds with ⟨-, hA, -⟩ | ⟨P, hone, -⟩
      · exact hA
      · simp [hnil] at hone
    simp [hH, hA]
  · obtain ⟨hsound, hb⟩ := hS.pool (g := 0) (P := P) (by simp [hone])
    have hprefix : w.2.2 ++ (P.inHand ++ (P.caller.leftover ++ P.processor.queue.items).toChunks b)
        = (acceptedOf done).toChunks b := by
      rw [← List.append_assoc]
      exact hCh.order
    refine ⟨⟨_, hprefix⟩, full_of_prefix_toChunks (hb ▸ hsound.batch) hprefix, fun hstopped => ?_⟩
    -- once stopped, the stop is over: the worker returned and left nothing queued or in hand
    obtain ⟨report, residue, hc⟩ : ∃ report residue, P.caller = .finished report residue := by
      have hf := hfin (Coordinator.active_of_phase hstopped)
      cases hcaller : P.caller <;> simp_all [Caller.isFinished]
    have i : Fin n := ⟨0, by omega⟩
    have hret := hCh.alone (by rw [hc]; rfl) i
    have hempty := hsound.emptied i (by rw [hret]; rfl)
    have hin : P.inHand = [] := by
      rw [Pool.inHand_of_one hn P i, hret, hc]
      rfl
    rw [← hCh.order, hin, hCh.residue, hempty]
    simp

/-- Size-triggered batching with one worker is exact chunking. A coordinator with one worker
starts once and then takes any schedule of calls by any number of callers, steps of its worker
and flusher, and stops, with a sink that notes every batch it is handed, whatever it answers.
If its flusher never fires and every stop stops waiting for the threads only once the worker has
returned, the batches handed to the sink, in order, are the first chunks of batch size of the
records answered as queued, in the order answered, every one but the last full; once the
coordinator has stopped, they are all of those chunks. -/
theorem schedule_batchesChunkAccepted (config : EntityLog.Config.PipelineConfig)
    (recorder : Recorder) (k₀ : Nat) (events : List Event)
    (honce : ∀ e ∈ events, ∀ k, e ≠ .call k .start) (hone : config.workerThreads = 1)
    (m m' : Machine) (s s' : σ) (notes : List (Note config.workerThreads))
    (Q : Process config.workerThreads) (handed : Handed)
    (hrun : ((run (noting save) (.call k₀ .start :: events)).run
        (new (Coordinator.new config recorder))).run (m, s, []) = ((notes, Q), (m', s', handed)))
    (hfire : ∀ g, Note.fired g ∉ notes)
    (hjoin : ∀ g stragglers, Note.joined g stragglers ∈ notes →
      ∀ i, Pool.Thread.worker i ∉ stragglers) :
    (∃ rest, handed ++ rest = (acceptedOf notes).toChunks config.batchSize) ∧
      (∀ x ∈ handed.dropLast, x.length = config.batchSize) ∧
      (Q.coordinator.phase = .stopped → handed = (acceptedOf notes).toChunks config.batchSize) := by
  have hinv := Takes.run_started (noting save)
    (fun done Q w => Session config.batchSize done Q w ∧
      (Note.Quiet done → Q.coordinator.Chunks config.batchSize (acceptedOf done) w.2.2))
    (fun hstart hinv ht => ⟨hinv.1.step save hstart ht,
      fun hq => Chunks.step save hone hinv.1 (hinv.2 hq.left) hstart hq ht⟩)
    k₀ events honce rfl ⟨Session.fresh config recorder m s, fun _ => .inl ⟨rfl, rfl⟩⟩ hrun
  exact Chunks.batches hone hinv.1 (hinv.2 ⟨hfire, hjoin⟩)

theorem withCaller_ne {Q : Process n} {k j : Nat} {p q : Pending} (hp : p ≠ q)
    (hQ : Q.callers j ≠ q) : (Q.withCaller k p).callers j ≠ q := by
  by_cases hjk : j = k
  · subst hjk
    rwa [withCaller_self]
  · rwa [withCaller_other _ hjk]

/-- With no step of a flusher and no stop, no caller is ever stopping and every note is one of
a caller. -/
theorem Takes.quiet {e : Event} {done new : List (Note n)} {Q Q' : Process n}
    {w w' : Machine × σ} (hflusher : ∀ g, e ≠ .flusher g) (hstop : ∀ k, e ≠ .call k .stop)
    (hinv : Note.Quiet done ∧ ∀ k, Q.callers k ≠ .stopping) (ht : Takes save e Q w new Q' w') :
    Note.Quiet (done ++ new) ∧ ∀ k, Q'.callers k ≠ .stopping := by
  obtain ⟨hq, hidle⟩ := hinv
  cases ht with
  | skip => simpa using ⟨hq, hidle⟩
  | answer k a => exact ⟨hq.append (by simp [Note.caller?]), hidle⟩
  | start k => exact ⟨hq.append (by simp [Note.caller?]), hidle⟩
  | beginStop k => exact absurd rfl (hstop k)
  | logAnswered k => exact ⟨hq.append (by simp [Note.caller?]), hidle⟩
  | logWritten k =>
    exact ⟨hq.append (by simp [Note.caller?]), fun j => withCaller_ne Pending.noConfusion (hidle j)⟩
  | offer k =>
    exact ⟨hq.append (by simp [Note.caller?]), fun j => withCaller_ne Pending.noConfusion (hidle j)⟩
  | offerLost k =>
    exact ⟨hq.append (by simp [Note.caller?]), fun j => withCaller_ne Pending.noConfusion (hidle j)⟩
  | stopStep k hk => exact absurd hk (hidle k)
  | stopEnd k hk => exact absurd hk (hidle k)
  | stopGone k hk => exact absurd hk (hidle k)
  | worker => simpa using ⟨hq, hidle⟩
  | flusher g => exact absurd rfl (hflusher g)

/-- A schedule with no step of a flusher and no stop, from callers none of which is stopping,
leaves quiet notes. -/
theorem run_quiet (events : List Event) (hflusher : ∀ e ∈ events, ∀ g, e ≠ .flusher g)
    (hstop : ∀ e ∈ events, ∀ k, e ≠ .call k .stop) {Q Q' : Process n} {w w' : Machine × σ}
    {notes : List (Note n)} (hQ : ∀ k, Q.callers k ≠ .stopping)
    (hrun : ((run save events).run Q).run w = ((notes, Q'), w')) : Note.Quiet notes := by
  have h := Takes.run_induction save (fun e => (∀ g, e ≠ .flusher g) ∧ ∀ k, e ≠ .call k .stop)
    (fun done Q _ => Note.Quiet done ∧ ∀ k, Q.callers k ≠ .stopping)
    (fun hallowed hinv ht => Takes.quiet save hallowed.1 hallowed.2 hinv ht) events
    (fun e he => ⟨hflusher e he, hstop e he⟩) (Q := Q) (w := w)
    (⟨⟨by simp, by simp⟩, hQ⟩ : Note.Quiet ([] : List (Note n)) ∧ ∀ k, Q.callers k ≠ .stopping)
  rw [List.nil_append, hrun] at h
  exact h.1

theorem schedule_batchesChunkAccepted_oneWorker :
    let r : Nat → ChangeRecord := fun i =>
      ⟨⟨i⟩, ⟨"T", toString i⟩, .create, .empty, Time.Instant.ofMillis 0, none⟩
    let config : EntityLog.Config.PipelineConfig :=
      { batchSize := 2, workerThreads := 1, walPath := "x.log" }
    let events : List Event := [.call 1 (.log (r 1)), .call 2 (.log (r 2)), .resume 1, .resume 2,
      .worker 0 0, .worker 0 0, .worker 0 0, .worker 0 0, .call 1 (.log (r 3)), .resume 1,
      .worker 0 0, .worker 0 0, .call 2 (.log (r 4)), .resume 2, .worker 0 0, .worker 0 0,
      .worker 0 0, .worker 0 0]
    let out := ((run (noting fun _ => pure SaveOutcome.saved) (.call 0 .start :: events)).run
      (new (Coordinator.new config (.live {})))).run (({ disk := {} } : Machine), (), [])
    (∀ e ∈ events, ∀ k, e ≠ .call k .start) ∧ config.workerThreads = 1 ∧
      (∀ g, Note.fired g ∉ out.1.1) ∧
      (∀ g stragglers, Note.joined g stragglers ∈ out.1.1 →
        ∀ i, Pool.Thread.worker i ∉ stragglers) ∧
      (∃ rest, out.2.2.2 ++ rest = (acceptedOf out.1.1).toChunks config.batchSize) ∧
      (∀ x ∈ out.2.2.2.dropLast, x.length = config.batchSize) ∧
      (out.1.2.coordinator.phase = .stopped →
        out.2.2.2 = (acceptedOf out.1.1).toChunks config.batchSize) := by
  intro r config events out
  have honce : ∀ e ∈ events, ∀ k, e ≠ .call k .start := by simp [events]
  rcases hout : out with ⟨⟨notes, Q⟩, m', s', handed⟩
  have hq : Note.Quiet notes :=
    run_quiet _ _ (by simp [events]) (by simp [events]) (fun _ => Pending.noConfusion) hout
  exact ⟨honce, rfl, hq.1, hq.2, schedule_batchesChunkAccepted _ config (.live {}) 0 events honce
    rfl _ _ _ _ _ _ _ hout hq.1 hq.2⟩

end Process

end EntityLog.Pipeline
