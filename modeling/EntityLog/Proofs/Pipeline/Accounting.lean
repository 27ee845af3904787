import EntityLog.Proofs.Pipeline.Handing
/-!
# Batch accounting

A sink's save function is wrapped by `recording`, which saves as the sink does and notes each
call in a ledger: the batch handed over and the sink's answer, accepted, refused or crashed.
Against the ledger the metrics of a processor account exactly for what it handed over
(`Accounts`): every call was handed a nonempty batch, the batch-size distribution counts one
value per call and sums the records of all calls, `processed` sums the records of accepted
calls and `saveErrors` counts the others. The counters are 64-bit and wrap, so each is the total
modulo `wordSize`.

Persisting is the one place that calls the sink (`persist_spec`): once for a nonempty batch and
not at all for an empty one. Draining one batch, draining rounds until a batch comes back empty,
the timed flush and the final flush are persisting in a loop, so they keep the accounts by
induction on the rounds left. A processor driven by any sequence of offers, drains, flushes,
final flushes and direct persists keeps them (`drives_account`).
-/

namespace EntityLog.Pipeline

open EntityLog.Files EntityLog.Record EntityLog.Time EntityLog.Config

/-- The calls a sink received, oldest first: each batch with the sink's answer. -/
abbrev Ledger := List (List ChangeRecord × SaveOutcome)

namespace Ledger

/-- The records handed over in all calls. -/
def records (calls : Ledger) : Nat := (calls.map (·.1.length)).sum

/-- The records of the batches the sink accepted. -/
def accepted (calls : Ledger) : Nat := ((calls.filter (·.2.ok)).map (·.1.length)).sum

/-- The records of the batches the sink refused or crashed on. -/
def rejected (calls : Ledger) : Nat := ((calls.filter (!·.2.ok)).map (·.1.length)).sum

/-- The calls the sink refused or crashed on. -/
def failures (calls : Ledger) : Nat := calls.countP (!·.2.ok)

variable (calls : Ledger) (batch : List ChangeRecord) (o : SaveOutcome)

@[simp] theorem records_noted : records (calls ++ [(batch, o)]) = calls.records + batch.length := by
  simp [records]

@[simp] theorem accepted_noted :
    accepted (calls ++ [(batch, o)]) = calls.accepted + if o.ok then batch.length else 0 := by
  cases h : o.ok <;> simp [accepted, h]

@[simp] theorem failures_noted :
    failures (calls ++ [(batch, o)]) = calls.failures + if o.ok then 0 else 1 := by
  cases h : o.ok <;> simp [failures, h]

/-- Every record handed over was either accepted or rejected. -/
theorem accepted_add_rejected : calls.accepted + calls.rejected = calls.records := by
  induction calls with
  | nil => rfl
  | cons call rest ih =>
    cases h : call.2.ok <;> simp [accepted, rejected, records, h] at ih ⊢ <;> omega

end Ledger

variable {σ : Type}

/-- A sink's save that also notes each call in a ledger: the batch and the sink's answer. -/
def recording (save : List ChangeRecord → World σ SaveOutcome) (batch : List ChangeRecord) :
    World (σ × Ledger) SaveOutcome := do
  let (m, s, calls) ← get
  let (outcome, m', s') := (save batch).run (m, s)
  set (m', s', calls ++ [(batch, outcome)])
  return outcome

theorem recording_run (save : List ChangeRecord → World σ SaveOutcome)
    (batch : List ChangeRecord) (w : Machine × σ × Ledger) :
    (recording save batch).run w =
      (((save batch).run (w.1, w.2.1)).1,
        (((save batch).run (w.1, w.2.1)).2.1, ((save batch).run (w.1, w.2.1)).2.2,
          w.2.2 ++ [(batch, ((save batch).run (w.1, w.2.1)).1)])) :=
  rfl

theorem wrapAdd_mod (a b : Nat) : wrapAdd (a % wordSize) b = (a + b) % wordSize := by
  simp [wrapAdd, Nat.add_mod]

/-- The batch counters of a set of metrics tally the calls of a ledger, modulo `wordSize`. -/
structure Tallies (m : Metrics) (calls : Ledger) : Prop where
  count : m.batchSize.count = calls.length % wordSize
  total : m.batchSize.total = calls.records % wordSize
  processed : m.processed = calls.accepted % wordSize
  saveErrors : m.saveErrors = calls.failures % wordSize

/-- Tallies read only the batch counters. -/
theorem Tallies.congr {m m' : Metrics} {calls : Ledger} (htally : Tallies m calls)
    (hsize : m'.batchSize = m.batchSize) (hprocessed : m'.processed = m.processed)
    (herrors : m'.saveErrors = m.saveErrors) : Tallies m' calls :=
  ⟨hsize ▸ htally.count, hsize ▸ htally.total, hprocessed ▸ htally.processed,
    herrors ▸ htally.saveErrors⟩

/-- The records accepted and those rejected add up to the batch-size total. -/
theorem Tallies.processed_add_rejected {m : Metrics} {calls : Ledger} (htally : Tallies m calls) :
    (m.processed + calls.rejected) % wordSize = m.batchSize.total := by
  rw [htally.processed, htally.total, Nat.mod_add_mod, Ledger.accepted_add_rejected]

/-- The metrics are kept and account for the sink's calls: each call was handed a nonempty
batch, the batch counters tally the calls, and `dropped` and `shutdownFlushed` hold the given
counts. -/
structure Accounts (recorder : Recorder) (calls : Ledger) (dropped flushed : Nat) : Prop where
  nonempty : ∀ call ∈ calls, call.1 ≠ []
  live : ∃ m, recorder = .live m ∧ Tallies m calls ∧ m.dropped = dropped ∧
    m.shutdownFlushed = flushed

/-- Reports that leave the counters alone: latencies, the queue gauge and the shutdown mark. -/
def Report.quiet : Report → Bool
  | .offerLatency _ | .batchLatency _ | .flushLatency _ | .queueSize _ | .shutdown => true
  | _ => false

namespace Accounts

variable {recorder : Recorder} {calls : Ledger} {dropped flushed : Nat}

theorem fresh : Accounts (.live {}) [] 0 0 :=
  ⟨by simp, {}, rfl, ⟨rfl, rfl, rfl, rfl⟩, rfl, rfl⟩

theorem quiet (hacc : Accounts recorder calls dropped flushed) {r : Report}
    (hr : r.quiet = true) : Accounts (recorder.apply r) calls dropped flushed := by
  obtain ⟨m, rfl, htally, hdropped, hflushed⟩ := hacc.live
  refine ⟨hacc.nonempty, m.apply r, rfl, htally.congr ?_ ?_ ?_, ?_, ?_⟩ <;>
    cases r <;> simp_all [Report.quiet, Metrics.apply]

theorem drop (hacc : Accounts recorder calls dropped flushed) (n : Nat) :
    Accounts (recorder.apply (.dropped n)) calls (wrapAdd dropped n) flushed := by
  obtain ⟨m, rfl, htally, rfl, rfl⟩ := hacc.live
  exact ⟨hacc.nonempty, _, rfl, htally.congr rfl rfl rfl, rfl, rfl⟩

theorem flushedAtShutdown (hacc : Accounts recorder calls dropped flushed) (n : Nat) :
    Accounts (recorder.apply (.shutdownFlushed n)) calls dropped (wrapAdd flushed n) := by
  obtain ⟨m, rfl, htally, rfl, rfl⟩ := hacc.live
  exact ⟨hacc.nonempty, _, rfl, htally.congr rfl rfl rfl, rfl, rfl⟩

/-- A nonempty batch handed to the sink: its records counted as processed when accepted, else a
save error, and its size recorded. -/
theorem noted (hacc : Accounts recorder calls dropped flushed) {batch : List ChangeRecord}
    (hbatch : batch ≠ []) (o : SaveOutcome) :
    Accounts ((if o.ok then recorder.apply (.processed batch.length) else
      recorder.apply .saveError).apply (.batchSize batch.length))
      (calls ++ [(batch, o)]) dropped flushed := by
  obtain ⟨m, rfl, htally, hdropped, hflushed⟩ := hacc.live
  refine ⟨?_, ?_⟩
  · intro call hcall
    rcases List.mem_append.1 hcall with hcall | hcall
    · exact hacc.nonempty call hcall
    · simp only [List.mem_singleton] at hcall
      subst hcall
      exact hbatch
  · cases hok : o.ok
    · refine ⟨_, rfl, ⟨?_, ?_, ?_, ?_⟩, hdropped, hflushed⟩ <;>
        simp [Metrics.apply, Distribution.record, htally.count, htally.total, htally.processed,
          htally.saveErrors, hok, wrapAdd_mod]
    · refine ⟨_, rfl, ⟨?_, ?_, ?_, ?_⟩, hdropped, hflushed⟩ <;>
        simp [Metrics.apply, Distribution.record, htally.count, htally.total, htally.processed,
          htally.saveErrors, hok, wrapAdd_mod]

end Accounts

/-! ## A processor's accounts -/

variable (save : List ChangeRecord → World σ SaveOutcome)

/-- Persisting calls the sink once with a nonempty batch and not at all with an empty one, and
keeps the accounts. -/
theorem persist_spec {p p' : Processor} {batch : List ChangeRecord} {ok : Bool}
    {w w' : Machine × σ × Ledger}
    (hrun : (p.persist (recording save) batch).run w = ((p', ok), w')) :
    p'.queue = p.queue ∧ p'.batchSize = p.batchSize ∧
      w'.2.2 = w.2.2 ++ (if batch.isEmpty then [] else
        [(batch, ((save batch).run (w.1, w.2.1)).1)]) ∧
      ∀ {dropped flushed : Nat}, Accounts p.recorder w.2.2 dropped flushed →
        Accounts p'.recorder w'.2.2 dropped flushed := by
  unfold Processor.persist at hrun
  by_cases hempty : batch.isEmpty
  · simp only [hempty, if_true] at hrun ⊢
    cases hrun
    exact ⟨rfl, rfl, by simp, fun hacc => hacc⟩
  · simp only [hempty, Bool.false_eq_true, if_false, StateT.run_bind, recording_run,
      id_bind_eq] at hrun ⊢
    cases hrun
    refine ⟨by split <;> rfl, by split <;> rfl, by simp, fun hacc => ?_⟩
    have hbatch : batch ≠ [] := by simpa using hempty
    have hsaved := ((hacc.noted hbatch ((save batch).run (w.1, w.2.1)).1).quiet
      (r := .batchLatency Span.zero) rfl).quiet (r := .queueSize p.queue.size) rfl
    by_cases hok : ((save batch).run (w.1, w.2.1)).1.ok
    · simp only [hok, if_true] at hsaved ⊢
      exact hsaved
    · simp only [hok, Bool.false_eq_true, if_false] at hsaved ⊢
      exact hsaved

section Loops

variable {dropped flushed : Nat}

theorem drainBatch_accounts {p p' : Processor} {n : Nat} {ok : Bool}
    {w w' : Machine × σ × Ledger} (hacc : Accounts p.recorder w.2.2 dropped flushed)
    (hrun : (p.drainBatch (recording save)).run w = ((p', n, ok), w')) :
    Accounts p'.recorder w'.2.2 dropped flushed := by
  unfold Processor.drainBatch at hrun
  obtain ⟨⟨p1, ok1⟩, w1, hpersist, hrest⟩ := run_bind_eq hrun
  cases hrest
  exact (persist_spec save hpersist).2.2.2 hacc

theorem flush_accounts {p p' : Processor} {n : Nat} {w w' : Machine × σ × Ledger}
    (hacc : Accounts p.recorder w.2.2 dropped flushed)
    (hrun : (p.flush (recording save)).run w = ((p', n), w')) :
    Accounts p'.recorder w'.2.2 dropped flushed := by
  unfold Processor.flush at hrun
  obtain ⟨⟨p1, n1, ok1⟩, w1, hbatch, hrest⟩ := run_bind_eq hrun
  cases hrest
  exact (drainBatch_accounts save hacc hbatch).quiet (r := .flushLatency Span.zero) rfl

/-- Draining round after round keeps the accounts, by induction on the rounds left. -/
theorem drainRounds_accounts (rounds : Nat) {p p' : Processor} {w w' : Machine × σ × Ledger}
    (hacc : Accounts p.recorder w.2.2 dropped flushed)
    (hrun : (p.drainRounds (recording save) rounds).run w = (p', w')) :
    Accounts p'.recorder w'.2.2 dropped flushed := by
  induction rounds generalizing p w with
  | zero =>
    cases hrun
    exact hacc
  | succ k ih =>
    unfold Processor.drainRounds at hrun
    obtain ⟨⟨p1, n, ok1⟩, w1, hbatch, hrest⟩ := run_bind_eq hrun
    have hacc1 := drainBatch_accounts save hacc hbatch
    by_cases hzero : n = 0
    · simp only [hzero, if_true] at hrest
      cases hrest
      exact hacc1
    · simp only [hzero, if_false] at hrest
      exact ih hacc1 hrest

theorem drainOut_accounts {p p' : Processor} {w w' : Machine × σ × Ledger}
    (hacc : Accounts p.recorder w.2.2 dropped flushed)
    (hrun : (p.drainOut (recording save)).run w = (p', w')) :
    Accounts p'.recorder w'.2.2 dropped flushed :=
  drainRounds_accounts save _ hacc hrun

/-- The final flush's rounds keep the accounts, by induction on the rounds left. -/
theorem flushRounds_accounts (rounds : Nat) {p p' : Processor} {acc acc' : FinalFlush}
    {w w' : Machine × σ × Ledger} (hacc : Accounts p.recorder w.2.2 dropped flushed)
    (hrun : (p.flushRounds (recording save) acc rounds).run w = ((p', acc'), w')) :
    Accounts p'.recorder w'.2.2 dropped flushed := by
  induction rounds generalizing p acc w with
  | zero =>
    cases hrun
    exact hacc
  | succ k ih =>
    unfold Processor.flushRounds at hrun
    obtain ⟨⟨p1, n, ok1⟩, w1, hbatch, hrest⟩ := run_bind_eq hrun
    have hacc1 := drainBatch_accounts save hacc hbatch
    by_cases hzero : n = 0
    · simp only [hzero, if_true] at hrest
      cases hrest
      exact hacc1
    · simp only [hzero, if_false] at hrest
      exact ih hacc1 hrest

theorem finalFlush_accounts {p p' : Processor} {rounds : Nat} {result : FinalFlush}
    {w w' : Machine × σ × Ledger} (hacc : Accounts p.recorder w.2.2 dropped flushed)
    (hrun : (p.finalFlush (recording save) rounds).run w = ((p', result), w')) :
    Accounts p'.recorder w'.2.2 dropped flushed :=
  flushRounds_accounts save rounds hacc hrun

end Loops

/-- One call on a batch processor: a producer's offer, a worker's drain of one batch, a stopped
worker draining until a batch comes back empty, a timed flush, the final flush, or a batch
persisted directly. -/
inductive Drive where
  | offer (r : ChangeRecord)
  | drain
  | drainOut
  | flush
  | finalFlush (rounds : Nat)
  | persist (batch : List ChangeRecord)

/-- Makes a call on a processor. -/
def Drive.run {τ : Type} (save : List ChangeRecord → World τ SaveOutcome) :
    Drive → Processor → World τ Processor
  | .offer r, p => pure { p with queue := (p.queue.offer r).1 }
  | .drain, p => return (← p.drainBatch save).1
  | .drainOut, p => p.drainOut save
  | .flush, p => return (← p.flush save).1
  | .finalFlush rounds, p => return (← p.finalFlush save rounds).1
  | .persist batch, p => return (← p.persist save batch).1

/-- Makes calls on a processor one after another. -/
def Drive.runAll {τ : Type} (save : List ChangeRecord → World τ SaveOutcome) :
    List Drive → Processor → World τ Processor
  | [], p => pure p
  | d :: rest, p => do runAll save rest (← d.run save p)

theorem drive_accounts {d : Drive} {p p' : Processor} {w w' : Machine × σ × Ledger}
    {dropped flushed : Nat} (hacc : Accounts p.recorder w.2.2 dropped flushed)
    (hrun : (d.run (recording save) p).run w = (p', w')) :
    Accounts p'.recorder w'.2.2 dropped flushed := by
  cases d with
  | offer r =>
    cases hrun
    exact hacc
  | drain =>
    obtain ⟨⟨p1, n, ok⟩, w1, hbatch, hrest⟩ := run_bind_eq hrun
    cases hrest
    exact drainBatch_accounts save hacc hbatch
  | drainOut => exact drainOut_accounts save hacc hrun
  | flush =>
    obtain ⟨⟨p1, n⟩, w1, hflush, hrest⟩ := run_bind_eq hrun
    cases hrest
    exact flush_accounts save hacc hflush
  | finalFlush rounds =>
    obtain ⟨⟨p1, result⟩, w1, hflush, hrest⟩ := run_bind_eq hrun
    cases hrest
    exact finalFlush_accounts save hacc hflush
  | persist batch =>
    obtain ⟨⟨p1, ok⟩, w1, hpersist, hrest⟩ := run_bind_eq hrun
    cases hrest
    exact (persist_spec save hpersist).2.2.2 hacc

/-- Any sequence of calls on a processor keeps its accounts, by induction on the calls. -/
theorem drives_account (drives : List Drive) {p p' : Processor} {w w' : Machine × σ × Ledger}
    {dropped flushed : Nat} (hacc : Accounts p.recorder w.2.2 dropped flushed)
    (hrun : (Drive.runAll (recording save) drives p).run w = (p', w')) :
    Accounts p'.recorder w'.2.2 dropped flushed := by
  induction drives generalizing p w with
  | nil =>
    cases hrun
    exact hacc
  | cons d rest ih =>
    obtain ⟨p1, w1, hstep, hrest⟩ := run_bind_eq hrun
    exact ih (drive_accounts save hacc hstep) hrest

end EntityLog.Pipeline
