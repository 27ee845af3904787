import EntityLog.Pipeline.Coordinator
import Mathlib
/-!
# What a processor hands to its sink

A sink's save function is wrapped by `noting`, which saves as the sink does and also notes each
batch it is handed, whatever the sink answers: accepted, refused or crashed. Against the noted
batches, every way a processor drains its queue (one batch, rounds until a batch comes back
empty, the final flush) hands batches from the front of the queue, in order, each nonempty and
at most a batch long (`HandsOn`). Draining out with a positive batch size leaves the queue empty
(`drainOut_hands`).

The facts compose: `HandsOn.trans` chains the batches of one drain and the next, which is how
the rounds of `drainRounds` and `flushRounds` are proved by induction on the rounds left.
-/

namespace EntityLog.Pipeline

open EntityLog.Files EntityLog.Record

variable {σ : Type}

/-- The batches a sink was handed, oldest first. -/
abbrev Handed := List (List ChangeRecord)

/-- A sink's save that also notes every batch it is handed, whatever the sink answers. -/
def noting (save : List ChangeRecord → World σ SaveOutcome) (batch : List ChangeRecord) :
    World (σ × Handed) SaveOutcome := do
  let (m, s, handed) ← get
  let (outcome, m', s') := (save batch).run (m, s)
  set (m', s', handed ++ [batch])
  return outcome

/-- From `p` with `handed` to `p'` with `handed'`, the processor handed batches from the front of
its queue to the sink, in order, each nonempty and at most a batch long; its batch size stays. -/
structure HandsOn (p p' : Processor) (handed handed' : Handed) : Prop where
  batchSize : p'.batchSize = p.batchSize
  front : ∃ fresh : Handed, handed' = handed ++ fresh ∧
    fresh.flatten ++ p'.queue.items = p.queue.items ∧
    ∀ b ∈ fresh, b ≠ [] ∧ b.length ≤ p.batchSize

theorem HandsOn.refl (p : Processor) (handed : Handed) : HandsOn p p handed handed :=
  ⟨rfl, [], by simp, by simp, by simp⟩

theorem HandsOn.trans {p p' p'' : Processor} {h h' h'' : Handed} (h1 : HandsOn p p' h h')
    (h2 : HandsOn p' p'' h' h'') : HandsOn p p'' h h'' := by
  obtain ⟨hb1, f1, rfl, hf1, hs1⟩ := h1
  obtain ⟨hb2, f2, rfl, hf2, hs2⟩ := h2
  refine ⟨hb2.trans hb1, f1 ++ f2, by simp, ?_, ?_⟩
  · rw [← hf1, ← hf2]; simp
  · intro b hb
    rcases List.mem_append.1 hb with hb | hb
    · exact hs1 b hb
    · rw [← hb1]; exact hs2 b hb

variable (save : List ChangeRecord → World σ SaveOutcome)

/-- Persisting hands the batch to the sink unless it is empty, and leaves the queue alone. -/
theorem persist_hands {p p' : Processor} {batch : List ChangeRecord} {ok : Bool} {m m' : Machine}
    {s s' : σ} {h h' : Handed}
    (hrun : (Processor.persist (noting save) p batch).run (m, s, h) = ((p', ok), (m', s', h'))) :
    h' = (if batch.isEmpty then h else h ++ [batch]) ∧ p'.queue = p.queue ∧
      p'.batchSize = p.batchSize := by
  unfold Processor.persist at hrun
  by_cases hempty : batch.isEmpty
  · simp only [hempty, if_true] at hrun ⊢
    cases hrun
    exact ⟨rfl, rfl, rfl⟩
  · simp only [hempty, noting, Bool.false_eq_true, if_false] at hrun ⊢
    cases hrun
    refine ⟨rfl, ?_, ?_⟩ <;> split <;> rfl

theorem id_bind_eq {α β : Type} (x : α) (f : α → Id β) : (x >>= f : Id β) = f x := rfl

theorem id_pure_eq {α : Type} (x : α) : (pure x : Id α) = x := rfl

theorem run_bind_eq {S α β : Type} {x : StateM S α} {f : α → StateM S β} {s s' : S} {b : β}
    (h : (x >>= f).run s = (b, s')) : ∃ a s1, x.run s = (a, s1) ∧ (f a).run s1 = (b, s') :=
  ⟨(x.run s).1, (x.run s).2, rfl, h⟩

/-- One batch drained: the oldest records, at most a batch of them, handed to the sink. -/
theorem drainBatch_hands {p p' : Processor} {n : Nat} {ok : Bool} {m m' : Machine} {s s' : σ}
    {h h' : Handed}
    (hrun : (p.drainBatch (noting save)).run (m, s, h) = ((p', n, ok), (m', s', h'))) :
    HandsOn p p' h h' ∧ n = (p.queue.items.take p.batchSize).length ∧
      p'.queue.items = p.queue.items.drop p.batchSize := by
  unfold Processor.drainBatch BoundedQueue.drain at hrun
  obtain ⟨⟨p1, ok1⟩, ⟨m1, s1, h1⟩, hpersist, hrest⟩ := run_bind_eq hrun
  cases hrest
  obtain ⟨hh, hq, hb⟩ := persist_hands save hpersist
  refine ⟨⟨hb, ?_⟩, rfl, by rw [hq]⟩
  by_cases hempty : (p.queue.items.take p.batchSize).isEmpty
  · refine ⟨[], by simp [hh, hempty], ?_, by simp⟩
    rw [hq]
    simp only [List.isEmpty_iff, List.take_eq_nil_iff] at hempty
    rcases hempty with hzero | hnil
    · simp [hzero]
    · simp [hnil]
  · refine ⟨[p.queue.items.take p.batchSize], by simp [hh, hempty], ?_, ?_⟩
    · rw [hq]
      simp
    · intro b hb
      simp only [List.mem_singleton] at hb
      subst hb
      exact ⟨by simpa using hempty, List.length_take_le _ _⟩

/-- A processor's reports change its metrics only. -/
theorem HandsOn.report {p p' : Processor} {h h' : Handed} (hp : HandsOn p p' h h') (r : Report) :
    HandsOn p (p'.report r) h h' :=
  ⟨hp.batchSize, hp.front⟩

/-- Draining round after round hands batches from the front; with a positive batch size and
more rounds than queued records, the queue ends empty. -/
theorem drainRounds_hands : ∀ (rounds : Nat) {p p' : Processor} {m m' : Machine} {s s' : σ}
    {h h' : Handed}, (p.drainRounds (noting save) rounds).run (m, s, h) = (p', (m', s', h')) →
    HandsOn p p' h h' ∧
      (0 < p.batchSize → p.queue.items.length < rounds → p'.queue.items = [])
  | 0, p, p', m, m', s, s', h, h', hrun => by
    cases hrun
    exact ⟨HandsOn.refl p h, fun _ hlt => absurd hlt (Nat.not_lt_zero _)⟩
  | k + 1, p, p', m, m', s, s', h, h', hrun => by
    unfold Processor.drainRounds at hrun
    obtain ⟨⟨p1, n, ok1⟩, ⟨m1, s1, h1⟩, hbatch, hrest⟩ := run_bind_eq hrun
    obtain ⟨hands, hn, hitems⟩ := drainBatch_hands save hbatch
    by_cases hzero : n = 0
    · -- An empty batch: the queue was empty already.
      simp only [hzero, if_true] at hrest
      cases hrest
      refine ⟨hands, fun hpos _ => ?_⟩
      rw [hitems]
      rw [hzero, eq_comm, List.length_eq_zero_iff, List.take_eq_nil_iff] at hn
      rcases hn with hn | hn
      · omega
      · simp [hn]
    · simp only [hzero, if_false] at hrest
      obtain ⟨hands', hempty⟩ := drainRounds_hands k hrest
      refine ⟨hands.trans hands', fun hbs hlt => hempty (by rw [hands.batchSize]; exact hbs) ?_⟩
      rw [hitems, List.length_drop]
      rw [hn, List.length_take] at hzero
      omega

/-- Draining out empties the queue when batches are not empty. -/
theorem drainOut_hands {p p' : Processor} {m m' : Machine} {s s' : σ} {h h' : Handed}
    (hrun : (p.drainOut (noting save)).run (m, s, h) = (p', (m', s', h'))) :
    HandsOn p p' h h' ∧ (0 < p.batchSize → p'.queue.items = []) := by
  obtain ⟨hands, hempty⟩ := drainRounds_hands save _ hrun
  exact ⟨hands, fun hpos => hempty hpos (Nat.lt_succ_self _)⟩

theorem flush_hands {p p' : Processor} {n : Nat} {m m' : Machine} {s s' : σ} {h h' : Handed}
    (hrun : (p.flush (noting save)).run (m, s, h) = ((p', n), (m', s', h'))) :
    HandsOn p p' h h' := by
  unfold Processor.flush at hrun
  obtain ⟨⟨p1, n1, ok1⟩, ⟨m1, s1, h1⟩, hbatch, hrest⟩ := run_bind_eq hrun
  cases hrest
  exact (drainBatch_hands save hbatch).1.report _

theorem flushRounds_hands : ∀ (rounds : Nat) {p p' : Processor} {acc acc' : FinalFlush}
    {m m' : Machine} {s s' : σ} {h h' : Handed},
    (p.flushRounds (noting save) acc rounds).run (m, s, h) = ((p', acc'), (m', s', h')) →
    HandsOn p p' h h'
  | 0, p, p', acc, acc', m, m', s, s', h, h', hrun => by
    cases hrun
    exact HandsOn.refl p h
  | k + 1, p, p', acc, acc', m, m', s, s', h, h', hrun => by
    unfold Processor.flushRounds at hrun
    obtain ⟨⟨p1, n, ok1⟩, ⟨m1, s1, h1⟩, hbatch, hrest⟩ := run_bind_eq hrun
    have hands := (drainBatch_hands save hbatch).1
    by_cases hzero : n = 0
    · simp only [hzero, if_true] at hrest
      cases hrest
      exact hands
    · simp only [hzero, if_false] at hrest
      exact hands.trans (flushRounds_hands k hrest)

theorem finalFlush_hands {p p' : Processor} {rounds : Nat} {flushed : FinalFlush} {m m' : Machine}
    {s s' : σ} {h h' : Handed}
    (hrun : (p.finalFlush (noting save) rounds).run (m, s, h) = ((p', flushed), (m', s', h'))) :
    HandsOn p p' h h' :=
  flushRounds_hands save rounds hrun

end EntityLog.Pipeline
