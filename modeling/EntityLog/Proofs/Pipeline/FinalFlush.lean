import EntityLog.Proofs.Pipeline.Accounting
import Mathlib.Data.List.Defs
/-!
# The final flush in closed form

A final flush of `n` queued records in batches of `b`, with at most `R` rounds, runs
`min R (⌈n / b⌉ + 1)` rounds: one for each batch that finds records and one more that finds the
queue empty, if the limit leaves room for it. It drains `min n (R * b)` records, hands the sink
those records cut into consecutive chunks of `b` in queue order (so never an empty batch), counts
as persisted the records of the chunks the sink accepted, and leaves the rest queued in order
(`finalFlush_closedForm`).

The rounds are counted by induction on the rounds left (`flushRounds_closedForm`). One round that
finds records takes the first chunk off the front, which is where both the chunks of the drained
prefix (`toChunks_take_step`) and the round count (`ceilDiv_step`) split off their first part.
-/

namespace EntityLog.Pipeline

open EntityLog.Files EntityLog.Record

/-! ## Cutting a list into chunks -/

section Chunks

variable {α : Type}

@[simp] theorem toChunks_nil (n : Nat) : ([] : List α).toChunks n = [] := by
  cases n <;> rfl

/-- A nonempty list cut into chunks of a positive size starts the loop with its head. -/
theorem toChunks_cons {n : Nat} (hn : 0 < n) (x : α) (xs : List α) :
    (x :: xs).toChunks n = List.toChunks.go n xs #[x] #[] := by
  obtain ⟨k, rfl⟩ := Nat.exists_eq_succ_of_ne_zero (Nat.pos_iff_ne_zero.1 hn)
  rfl

/-- The chunking loop, with a chunk of `k` items begun (`0 < k ≤ n`): that chunk is filled up to
`n` from the list, and the rest of the list is cut into chunks. -/
theorem toChunks_go (n : Nat) : ∀ (xs : List α) (acc : Array α) (done : Array (List α)),
    0 < acc.size → acc.size ≤ n →
    List.toChunks.go n xs acc done =
      done.toList ++ (acc.toList ++ xs.take (n - acc.size)) ::
        (xs.drop (n - acc.size)).toChunks n
  | [], acc, done, _, _ => by simp [List.toChunks.go]
  | x :: xs, acc, done, hpos, hle => by
    unfold List.toChunks.go
    by_cases hfull : acc.size = n
    · -- the begun chunk is full: it is done, and `x` begins the next
      have hnext := toChunks_go n xs ((Array.mkEmpty n).push x) (done.push acc.toList)
        (by simp) (by simp; omega)
      rw [if_pos (by simp [hfull]), hnext, hfull, Nat.sub_self, List.take_zero, List.drop_zero,
        toChunks_cons (by omega), toChunks_go n xs #[x] #[] (by simp) (by simp; omega)]
      simp
    · -- room is left: `x` joins the begun chunk
      have hnext := toChunks_go n xs (acc.push x) done (by simp) (by simp; omega)
      have hsub : n - acc.size = (n - (acc.size + 1)) + 1 := by omega
      rw [if_neg (by simpa using hfull), hnext, hsub]
      simp

/-- A nonempty list cut into chunks of a positive size: its first `n` items, then the rest cut. -/
theorem toChunks_eq_cons {n : Nat} (hn : 0 < n) {xs : List α} (hxs : xs ≠ []) :
    xs.toChunks n = xs.take n :: (xs.drop n).toChunks n := by
  obtain ⟨x, rest, rfl⟩ := List.exists_cons_of_ne_nil hxs
  rw [toChunks_cons hn, toChunks_go n rest #[x] #[] (by simp) (by simp; omega),
    List.take_cons hn, List.drop_cons hn]
  simp

/-- Full chunks followed by a rest, cut into chunks, are those chunks followed by the rest cut. -/
theorem toChunks_append_full {n : Nat} (hn : 0 < n) :
    ∀ (chunks : List (List α)) (rest : List α), (∀ b ∈ chunks, b.length = n) →
      (chunks.flatten ++ rest).toChunks n = chunks ++ rest.toChunks n
  | [], rest, _ => by simp
  | b :: chunks, rest, hfull => by
    have hb : b.length = n := hfull b List.mem_cons_self
    have hne : b ++ (chunks.flatten ++ rest) ≠ [] := by
      intro hnil
      rw [List.append_eq_nil_iff] at hnil
      rw [hnil.1, List.length_nil] at hb
      omega
    have htake : (b ++ (chunks.flatten ++ rest)).take n = b := by
      rw [← hb]
      exact List.take_left
    have hdrop : (b ++ (chunks.flatten ++ rest)).drop n = chunks.flatten ++ rest := by
      rw [← hb]
      exact List.drop_left
    rw [List.flatten_cons, List.append_assoc, toChunks_eq_cons hn hne, htake, hdrop,
      toChunks_append_full hn chunks rest (fun b' hb' => hfull b' (List.mem_cons_of_mem b hb'))]
    rfl

end Chunks

/-! ## Chunk arithmetic -/

/-- Taking a first batch off `n` records leaves one batch fewer, rounded up. -/
theorem ceilDiv_step {n b : Nat} (hb : 0 < b) (hn : 0 < n) :
    (n + b - 1) / b = (n - b + b - 1) / b + 1 := by
  rw [← Nat.add_div_right _ hb]
  by_cases hle : n ≤ b
  · -- at most one batch: both sides count exactly one
    have hone : ∀ m, b ≤ m → m < 2 * b → m / b = 1 := fun m hlo hhi =>
      Nat.div_eq_of_lt_le (by omega) (by omega)
    rw [hone _ (by omega) (by omega), hone _ (by omega) (by omega)]
  · congr 1
    omega

/-- The chunks of the first `min n ((k + 1) * b)` items are the first batch, then the chunks of
the first `min (n - b) (k * b)` items after it. -/
theorem toChunks_take_step {α : Type} {b : Nat} (hb : 0 < b) (k : Nat) {items : List α}
    (hne : items ≠ []) :
    (items.take (min items.length ((k + 1) * b))).toChunks b =
      items.take b :: ((items.drop b).take (min (items.length - b) (k * b))).toChunks b := by
  have hlen : 0 < items.length := List.length_pos_iff.2 hne
  have hprefix : items.take (min items.length ((k + 1) * b)) ≠ [] := by
    rw [Ne, List.take_eq_nil_iff, not_or, Nat.succ_mul]
    exact ⟨by omega, hne⟩
  rw [toChunks_eq_cons hb hprefix, List.take_take, List.drop_take]
  have hfirst : items.take (min b (min items.length ((k + 1) * b))) = items.take b := by
    rw [List.take_eq_take_iff, Nat.succ_mul]
    omega
  have hrest : min items.length ((k + 1) * b) - b = min (items.length - b) (k * b) := by
    rw [Nat.succ_mul]
    omega
  rw [hfirst, hrest]

/-! ## One round, as the sink's ledger sees it -/

namespace Ledger

@[simp] theorem accepted_nil : accepted [] = 0 := rfl

@[simp] theorem accepted_cons (call : List ChangeRecord × SaveOutcome) (calls : Ledger) :
    accepted (call :: calls) = (if call.2.ok then call.1.length else 0) + calls.accepted := by
  cases h : call.2.ok <;> simp [accepted, h]

end Ledger

variable {σ : Type} (save : List ChangeRecord → World σ SaveOutcome)

/-- Persisting a nonempty batch answers what the sink answered. -/
theorem persist_answer {p p' : Processor} {batch : List ChangeRecord} {ok : Bool}
    {w w' : Machine × σ × Ledger} (hne : batch ≠ [])
    (hrun : (p.persist (recording save) batch).run w = ((p', ok), w')) :
    ok = ((save batch).run (w.1, w.2.1)).1.ok := by
  unfold Processor.persist at hrun
  have hempty : batch.isEmpty = false := by simpa using hne
  simp only [hempty, Bool.false_eq_true, if_false, StateT.run_bind, recording_run,
    id_bind_eq] at hrun
  cases hrun
  rfl

/-- One round drains the oldest records, at most a batch of them; when there are some, the sink
is called once on them and the round answers what the sink answered. -/
theorem drainBatch_recorded {p p' : Processor} {n : Nat} {ok : Bool}
    {w w' : Machine × σ × Ledger}
    (hrun : (p.drainBatch (recording save)).run w = ((p', n, ok), w')) :
    n = (p.queue.items.take p.batchSize).length ∧
      p'.queue.items = p.queue.items.drop p.batchSize ∧ p'.batchSize = p.batchSize ∧
      (p.queue.items.take p.batchSize = [] → w'.2.2 = w.2.2) ∧
      (p.queue.items.take p.batchSize ≠ [] →
        ∃ o : SaveOutcome, w'.2.2 = w.2.2 ++ [(p.queue.items.take p.batchSize, o)] ∧
          ok = o.ok) := by
  unfold Processor.drainBatch BoundedQueue.drain at hrun
  obtain ⟨⟨p1, ok1⟩, w1, hpersist, hrest⟩ := run_bind_eq hrun
  cases hrest
  obtain ⟨hq, hb, hledger, -⟩ := persist_spec save hpersist
  refine ⟨rfl, by rw [hq], hb, fun hnil => by simp [hledger, hnil], fun hne => ?_⟩
  have hempty : (p.queue.items.take p.batchSize).isEmpty = false := by simpa using hne
  exact ⟨_, by simp [hledger, hempty], persist_answer save hne hpersist⟩

/-! ## The rounds -/

/-- The final flush's rounds from `p` with `acc` counted so far, by induction on the rounds
left: each round that finds records hands its chunk to the sink and takes it off the queue. -/
theorem flushRounds_closedForm (R : Nat) {p p' : Processor} {acc acc' : FinalFlush}
    {w w' : Machine × σ × Ledger}
    (hrun : (p.flushRounds (recording save) acc R).run w = ((p', acc'), w')) :
    ∃ calls : Ledger, w'.2.2 = w.2.2 ++ calls ∧
      calls.map Prod.fst =
        (p.queue.items.take (min p.queue.size (R * p.batchSize))).toChunks p.batchSize ∧
      (∀ call ∈ calls, call.1 ≠ []) ∧
      acc'.rounds = acc.rounds + min R ((p.queue.size + p.batchSize - 1) / p.batchSize + 1) ∧
      acc'.drained = acc.drained + min p.queue.size (R * p.batchSize) ∧
      acc'.persisted = acc.persisted + calls.accepted ∧
      p'.queue.items = p.queue.items.drop (min p.queue.size (R * p.batchSize)) := by
  induction R generalizing p acc w with
  | zero =>
    cases hrun
    exact ⟨[], by simp, by simp, by simp, by simp, by simp, by simp, by simp⟩
  | succ k ih =>
    unfold Processor.flushRounds at hrun
    obtain ⟨⟨p1, n1, ok1⟩, w1, hbatch, hrest⟩ := run_bind_eq hrun
    obtain ⟨hn1, hitems1, hsize1, hnone, hsome⟩ := drainBatch_recorded save hbatch
    have hsize : p.queue.size = p.queue.items.length := rfl
    by_cases hzero : n1 = 0
    · -- the round finds nothing: either no batch fits or the queue is empty
      simp only [hzero, if_true] at hrest
      cases hrest
      have hnil : p.queue.items.take p.batchSize = [] :=
        List.eq_nil_of_length_eq_zero (hn1 ▸ hzero)
      have hdrained : min p.queue.size ((k + 1) * p.batchSize) = 0 := by
        rcases List.take_eq_nil_iff.1 hnil with h | h <;> simp [hsize, h]
      have hceil : (p.queue.size + p.batchSize - 1) / p.batchSize = 0 := by
        rcases List.take_eq_nil_iff.1 hnil with h | h
        · simp [h]
        · rw [hsize, h, List.length_nil, Nat.zero_add]
          by_cases hb : p.batchSize = 0
          · simp [hb]
          · exact Nat.div_eq_of_lt (by omega)
      have hqueue : p.queue.items.drop p.batchSize = p.queue.items := by
        rcases List.take_eq_nil_iff.1 hnil with h | h
        · rw [h, List.drop_zero]
        · rw [h, List.drop_nil]
      refine ⟨[], by simp [hnone hnil], by simp [hdrained], by simp, ?_, by simp [hdrained],
        by simp, by rw [hdrained, List.drop_zero, hitems1, hqueue]⟩
      dsimp only
      rw [hceil]
      omega
    · -- the round drains the first chunk and the rounds go on from the rest
      simp only [hzero, if_false] at hrest
      have hne : p.queue.items.take p.batchSize ≠ [] := fun h => hzero (by simp [hn1, h])
      have hb : 0 < p.batchSize := Nat.pos_of_ne_zero fun h => hne (by simp [h])
      have hitems : p.queue.items ≠ [] := fun h => hne (by simp [h])
      have hn : 0 < p.queue.size := List.length_pos_iff.2 hitems
      obtain ⟨o, hw1, hok⟩ := hsome hne
      obtain ⟨calls, hw', hchunks, hnonempty, hrounds, hdrained, hpersisted, hqueue⟩ := ih hrest
      have hsize1' : p1.queue.size = p.queue.size - p.batchSize := by
        simp [BoundedQueue.size, hitems1]
      have hlen : n1 = min p.queue.size p.batchSize := by
        rw [hn1, List.length_take, Nat.min_comm, hsize]
      rw [hsize1, hsize1', hitems1] at hchunks hqueue
      rw [hsize1, hsize1'] at hrounds hdrained
      dsimp only at hrounds hdrained hpersisted
      refine ⟨(p.queue.items.take p.batchSize, o) :: calls, ?_, ?_, ?_, ?_, ?_, ?_, ?_⟩
      · rw [hw', hw1, List.append_assoc, List.singleton_append]
      · rw [List.map_cons, hchunks]
        exact (toChunks_take_step hb k hitems).symm
      · intro call hcall
        rcases List.mem_cons.1 hcall with rfl | hcall
        · exact hne
        · exact hnonempty call hcall
      · rw [hrounds, ceilDiv_step hb hn]
        omega
      · rw [hdrained, Nat.succ_mul]
        omega
      · rw [hpersisted, Ledger.accepted_cons, ← hok, ← hn1]
        omega
      · rw [hqueue, List.drop_drop, Nat.succ_mul]
        by_cases hle : p.queue.size ≤ p.batchSize
        · rw [List.drop_eq_nil_of_le (by omega), List.drop_eq_nil_of_le (by omega)]
        · congr 1
          omega

/-- The final flush of a processor with batch size `b` on a queue of `n` records, with at most
`R` rounds: it runs `min R (⌈n / b⌉ + 1)` rounds (`min R 1` when `b = 0`), drains the first
`min n (R * b)` records, hands the sink exactly those records cut into consecutive batches of `b`
in queue order and never an empty batch, reports as persisted the records of the batches the
sink accepted, and leaves the remaining records queued in order. -/
theorem finalFlush_closedForm (p : Processor) (R : Nat) (w : Machine × σ × Ledger) :
    let b := p.batchSize
    let n := p.queue.size
    let drained := min n (R * b)
    let out := (p.finalFlush (recording save) R).run w
    ∃ calls : Ledger, out.2.2.2 = w.2.2 ++ calls ∧
      calls.map Prod.fst = (p.queue.items.take drained).toChunks b ∧
      (∀ call ∈ calls, call.1 ≠ []) ∧
      out.1.2.rounds = (if b = 0 then min R 1 else min R ((n + b - 1) / b + 1)) ∧
      out.1.2.drained = drained ∧ out.1.2.persisted = calls.accepted ∧
      out.1.1.queue.items = p.queue.items.drop drained := by
  intro b n drained out
  obtain ⟨calls, hw, hchunks, hnonempty, hrounds, hdrained, hpersisted, hqueue⟩ :=
    @flushRounds_closedForm σ save R p _ {} _ w _ rfl
  refine ⟨calls, hw, hchunks, hnonempty, hrounds.trans ?_, hdrained.trans (Nat.zero_add _),
    hpersisted.trans (Nat.zero_add _), hqueue⟩
  -- with no room in a batch, `⌈n / 0⌉` is `0`: one empty round if the limit allows it
  split
  · rename_i hb
    have hzero : p.batchSize = 0 := hb
    simp [hzero]
  · rw [Nat.zero_add]

end EntityLog.Pipeline
