import EntityLog.Proofs.Pipeline.Accounting
import Mathlib.Algebra.Order.BigOperators.Group.List
import Mathlib.Algebra.Order.Group.Nat
/-!
# What a snapshot of the metrics reports

Metrics receive reports one after another. Each part of them is changed only by the reports of
its own kind, so after a run of reports each part is the fold of its own update over the amounts
of those reports (`foldl_apply_part`): the counters and totals add their amounts modulo `2^64`,
the gauge keeps the last value set, the extremes take the least and largest amount. Folded out,
a snapshot reports each counter as the sum of its increments modulo `2^64`, the queue size as
the last gauged value, and each distribution and timer as the count and sum of its amounts modulo
`2^64` with their extremes (`Metrics.Reports`).

The sums wrap: a timer's samples are capped at the largest 64-bit value before they are added,
but their total is not, so two long durations leave a total below their maximum
(`Metrics.timerTotal_wraps`). While neither the count nor the sum of a distribution or timer has
wrapped, its mean lies between its extremes and its maximum is at most its total
(`Metrics.snapshot_sumsModuloWord`).
-/

namespace EntityLog.Pipeline

open EntityLog.Time

/-! ## The parts of a set of metrics -/

/-- The four counters. -/
inductive Counter where
  | dropped | saveErrors | processed | shutdownFlushed

/-- The three timers: of offers, of batches and of flushes. -/
inductive Latency where
  | offer | batch | flush

namespace Metrics

/-- The value of a counter. -/
def counter (m : Metrics) : Counter → Nat
  | .dropped => m.dropped
  | .saveErrors => m.saveErrors
  | .processed => m.processed
  | .shutdownFlushed => m.shutdownFlushed

/-- A timer. -/
def timer (m : Metrics) : Latency → Timer
  | .offer => m.offerLatency
  | .batch => m.batchLatency
  | .flush => m.flushLatency

end Metrics

namespace Report

/-- What a report adds to a counter, if it is one of that counter's. -/
def increment? : Report → Counter → Option Nat
  | .dropped n, .dropped => some n
  | .saveError, .saveErrors => some 1
  | .processed n, .processed => some n
  | .shutdownFlushed n, .shutdownFlushed => some n
  | _, _ => none

/-- The duration a report times on a timer, if it is one of that timer's. -/
def elapsed? : Report → Latency → Option Span
  | .offerLatency d, .offer => some d
  | .batchLatency d, .batch => some d
  | .flushLatency d, .flush => some d
  | _, _ => none

/-- The batch size a report records, if it records one. -/
def batchSize? : Report → Option Nat
  | .batchSize n => some n
  | _ => none

/-- The queue size a report sets, if it sets one. -/
def gauge? : Report → Option Nat
  | .queueSize n => some n
  | _ => none

end Report

/-- The increments of a counter in a run of reports, in order. -/
def increments (c : Counter) (rs : List Report) : List Nat := rs.filterMap (·.increment? c)

/-- The batch sizes recorded in a run of reports, in order. -/
def batchSizes (rs : List Report) : List Nat := rs.filterMap Report.batchSize?

/-- The durations timed on a timer in a run of reports, in whole microseconds, each capped at the
largest 64-bit value. -/
def durations (t : Latency) (rs : List Report) : List Nat :=
  (rs.filterMap (·.elapsed? t)).map fun d => min d.micros wordMax

/-- The queue sizes set in a run of reports, in order. -/
def gauges (rs : List Report) : List Nat := rs.filterMap Report.gauge?

/-! ## Each part folds its own reports -/

/-- A part of the metrics that only the reports `pick` chooses change, each by `step`, is after a
run of reports the fold of `step` over the amounts they carry. -/
theorem foldl_apply_part {α β : Type} (part : Metrics → β) (pick : Report → Option α)
    (step : β → α → β)
    (hstep : ∀ m r, part (m.apply r) = match pick r with
      | some a => step (part m) a
      | none => part m)
    (rs : List Report) (m : Metrics) :
    part (rs.foldl Metrics.apply m) = (rs.filterMap pick).foldl step (part m) := by
  induction rs generalizing m with
  | nil => rfl
  | cons r rs ih =>
    rw [List.foldl_cons, ih, hstep, List.filterMap_cons]
    cases pick r <;> rfl

theorem foldl_apply_counter (c : Counter) (rs : List Report) (m : Metrics) :
    (rs.foldl Metrics.apply m).counter c = (increments c rs).foldl wrapAdd (m.counter c) :=
  foldl_apply_part (·.counter c) (·.increment? c) wrapAdd
    (fun m r => by cases r <;> cases c <;> rfl) rs m

theorem foldl_apply_timer (t : Latency) (rs : List Report) (m : Metrics) :
    (rs.foldl Metrics.apply m).timer t =
      (rs.filterMap (·.elapsed? t)).foldl Timer.record (m.timer t) :=
  foldl_apply_part (·.timer t) (·.elapsed? t) Timer.record
    (fun m r => by cases r <;> cases t <;> rfl) rs m

theorem foldl_apply_batchSize (rs : List Report) (m : Metrics) :
    (rs.foldl Metrics.apply m).batchSize = (batchSizes rs).foldl Distribution.record m.batchSize :=
  foldl_apply_part (·.batchSize) Report.batchSize? Distribution.record
    (fun m r => by cases r <;> rfl) rs m

theorem foldl_apply_queueSize (rs : List Report) (m : Metrics) :
    (rs.foldl Metrics.apply m).queueSize = (gauges rs).foldl (fun _ n => n) m.queueSize :=
  foldl_apply_part (·.queueSize) Report.gauge? (fun _ n => n)
    (fun m r => by cases r <;> rfl) rs m

/-! ## The folds, closed -/

theorem wordSize_pos : 0 < wordSize := by decide

/-- Adding up in 64 bits from a 64-bit start gives the sum modulo `2^64`. -/
theorem foldl_wrapAdd {a : Nat} (ha : a < wordSize) (xs : List Nat) :
    xs.foldl wrapAdd a = (a + xs.sum) % wordSize := by
  induction xs generalizing a with
  | nil => simp [Nat.mod_eq_of_lt ha]
  | cons x xs ih =>
    have hstep : wrapAdd a x = (a + x) % wordSize := rfl
    rw [List.foldl_cons, hstep, ih (Nat.mod_lt _ wordSize_pos), Nat.mod_add_mod, List.sum_cons,
      Nat.add_assoc]

/-- The largest of a list of naturals, folded from zero. -/
theorem foldl_max_zero (xs : List Nat) : xs.foldl max 0 = xs.max?.getD 0 := by
  rw [List.foldl_max, Nat.zero_max]

/-- A timer records its samples' count and total in 64 bits, and their maximum. -/
theorem Timer.foldl_record (ds : List Span) (t : Timer) :
    ds.foldl Timer.record t =
      { count := (ds.map fun _ => 1).foldl wrapAdd t.count,
        totalUs := (ds.map fun d => min d.micros wordMax).foldl wrapAdd t.totalUs,
        maxUs := (ds.map fun d => min d.micros wordMax).foldl max t.maxUs } := by
  induction ds generalizing t with
  | nil => rfl
  | cons d ds ih =>
    rw [List.foldl_cons, ih]
    rfl

/-- A distribution records its values' count and total in 64 bits, and their extremes. -/
theorem Distribution.foldl_record (xs : List Nat) (d : Distribution) :
    xs.foldl Distribution.record d =
      { count := (xs.map fun _ => 1).foldl wrapAdd d.count,
        total := xs.foldl wrapAdd d.total,
        least := xs.foldl Min.min d.least,
        most := xs.foldl Max.max d.most } := by
  induction xs generalizing d with
  | nil => rfl
  | cons x xs ih =>
    rw [List.foldl_cons, ih]
    rfl

/-- The last of a list of values set one after another, or the start when there is none. -/
theorem foldl_last (xs : List Nat) (a : Nat) : xs.foldl (fun _ n => n) a = xs.getLast?.getD a := by
  induction xs generalizing a with
  | nil => rfl
  | cons x xs ih => simp [ih, List.getLast?_cons]

/-- A fresh timer, after recording durations: their count and total modulo `2^64`, and their
maximum, each duration capped first. -/
theorem Timer.foldl_record_fresh (ds : List Span) :
    ds.foldl Timer.record {} =
      { count := (ds.map fun d => min d.micros wordMax).length % wordSize,
        totalUs := (ds.map fun d => min d.micros wordMax).sum % wordSize,
        maxUs := (ds.map fun d => min d.micros wordMax).max?.getD 0 } := by
  rw [Timer.foldl_record, foldl_wrapAdd wordSize_pos, foldl_wrapAdd wordSize_pos, foldl_max_zero]
  simp

/-- A fresh distribution, after recording 64-bit values: their count and total modulo `2^64`,
and their extremes; the least stays at the largest 64-bit value while there is none. -/
theorem Distribution.foldl_record_fresh {xs : List Nat} (hxs : ∀ x ∈ xs, x < wordSize) :
    xs.foldl Distribution.record {} =
      { count := xs.length % wordSize, total := xs.sum % wordSize,
        least := xs.min?.getD wordMax, most := xs.max?.getD 0 } := by
  have hleast : xs.foldl Min.min wordMax = xs.min?.getD wordMax := by
    rw [List.foldl_min]
    cases hmin : xs.min? with
    | none => simp
    | some v =>
      have hv : v < wordSize := hxs v (List.min?_mem hmin)
      simp only [Option.getD_some]
      exact Nat.min_eq_right (by unfold wordMax; omega)
  rw [Distribution.foldl_record, foldl_wrapAdd wordSize_pos, foldl_wrapAdd wordSize_pos, hleast,
    foldl_max_zero]
  simp

/-! ## What a snapshot reports -/

/-- What a snapshot reports after a run of reports: each counter the sum of its increments, and
each distribution and timer the count and sum of its amounts, all modulo `2^64`; the queue size
last gauged, zero if none; the extremes of the amounts, zero if none, the smallest batch size
reading zero while the count does. -/
structure Metrics.Reports (m : Metrics) (rs : List Report) : Prop where
  counter : ∀ c, m.counter c = (increments c rs).sum % wordSize
  queueSize : m.queueSize = (gauges rs).getLast?.getD 0
  batchCount : m.batchSize.count = (batchSizes rs).length % wordSize
  batchTotal : m.batchSize.total = (batchSizes rs).sum % wordSize
  batchMin : m.batchSize.min =
    if (batchSizes rs).length % wordSize = 0 then 0 else (batchSizes rs).min?.getD 0
  batchMax : m.batchSize.most = (batchSizes rs).max?.getD 0
  timerCount : ∀ t, (m.timer t).count = (durations t rs).length % wordSize
  timerTotal : ∀ t, (m.timer t).totalUs = (durations t rs).sum % wordSize
  timerMax : ∀ t, (m.timer t).maxUs = (durations t rs).max?.getD 0

theorem Metrics.timer_fresh (t : Latency) : ({} : Metrics).timer t = {} := by
  cases t <;> rfl

/-- Fresh metrics report what a run of reports adds up to, when every batch size is a 64-bit
value. -/
theorem Metrics.reports_fresh (rs : List Report) (hsizes : ∀ n ∈ batchSizes rs, n < wordSize) :
    (rs.foldl Metrics.apply {}).Reports rs := by
  have hdist := Distribution.foldl_record_fresh hsizes
  have htimer (t : Latency) := Timer.foldl_record_fresh (rs.filterMap (·.elapsed? t))
  refine ⟨fun c => ?_, ?_, ?_, ?_, ?_, ?_, fun t => ?_, fun t => ?_, fun t => ?_⟩
  · rw [foldl_apply_counter, foldl_wrapAdd (by cases c <;> exact wordSize_pos), Nat.add_comm]
    cases c <;> rfl
  · rw [foldl_apply_queueSize, foldl_last]
  · rw [foldl_apply_batchSize]
    exact congrArg Distribution.count hdist
  · rw [foldl_apply_batchSize]
    exact congrArg Distribution.total hdist
  · rw [Distribution.min, foldl_apply_batchSize, hdist]
    -- A count that does not read zero has values behind it, so their least is the same whatever
    -- stands in for none.
    by_cases hcount : (batchSizes rs).length % wordSize = 0
    · simp [hcount]
    · obtain ⟨v, hv⟩ : ∃ v, (batchSizes rs).min? = some v :=
        Option.isSome_iff_exists.1 (List.isSome_min?_of_ne_nil (by
          rintro hnil
          simp [hnil] at hcount))
      simp [hcount, hv]
  · rw [foldl_apply_batchSize]
    exact congrArg Distribution.most hdist
  · rw [foldl_apply_timer, Metrics.timer_fresh, htimer]
    rfl
  · rw [foldl_apply_timer, Metrics.timer_fresh, htimer]
    rfl
  · rw [foldl_apply_timer, Metrics.timer_fresh, htimer]
    rfl

/-! ## Means between the extremes, while nothing wrapped -/

/-- The mean of naturals is at most the largest of them. -/
theorem sum_div_length_le_max (xs : List Nat) : xs.sum / xs.length ≤ xs.max?.getD 0 := by
  apply Nat.div_le_of_le_mul
  have hbound := List.sum_le_card_nsmul xs (xs.max?.getD 0)
    (fun _ hx => List.le_max?_getD_of_mem hx)
  simpa using hbound

/-- The least of some naturals is at most their mean. -/
theorem min_le_sum_div_length {xs : List Nat} (hne : xs ≠ []) :
    xs.min?.getD 0 ≤ xs.sum / xs.length := by
  rw [Nat.le_div_iff_mul_le (List.length_pos_iff.2 hne)]
  have hbound := List.card_nsmul_le_sum xs (xs.min?.getD 0)
    (fun _ hx => List.min?_getD_le_of_mem hx)
  simpa [Nat.mul_comm] using hbound

/-- The largest of some naturals is at most their sum. -/
theorem max_le_sum (xs : List Nat) : xs.max?.getD 0 ≤ xs.sum := by
  cases hmax : xs.max? with
  | none => simp
  | some v => exact List.le_sum_of_mem (List.max?_mem hmax)

namespace Metrics.Reports

variable {m : Metrics} {rs : List Report}

/-- While the batch sizes' count and sum have not wrapped, the mean batch size lies between the
least and the largest. -/
theorem batch_bounds (h : m.Reports rs) (hlen : (batchSizes rs).length < wordSize)
    (hsum : (batchSizes rs).sum < wordSize) :
    m.batchSize.min ≤ m.batchSize.mean ∧ m.batchSize.mean ≤ m.batchSize.most := by
  have hcount : m.batchSize.count = (batchSizes rs).length := by
    rw [h.batchCount, Nat.mod_eq_of_lt hlen]
  have hmean : m.batchSize.mean = (batchSizes rs).sum / (batchSizes rs).length := by
    rw [Distribution.mean, h.batchTotal, Nat.mod_eq_of_lt hsum, hcount]
    split <;> simp_all
  rw [hmean, h.batchMin, Nat.mod_eq_of_lt hlen, h.batchMax]
  -- With no batch size at all every figure reads zero.
  by_cases hne : batchSizes rs = []
  · simp [hne]
  · rw [if_neg (by simpa using hne)]
    exact ⟨min_le_sum_div_length hne, sum_div_length_le_max _⟩

/-- While a timer's count and total have not wrapped, its mean is at most its maximum, which is
at most its total. -/
theorem timer_bounds (h : m.Reports rs) (t : Latency) (hlen : (durations t rs).length < wordSize)
    (hsum : (durations t rs).sum < wordSize) :
    (m.timer t).meanUs ≤ (m.timer t).maxUs ∧ (m.timer t).maxUs ≤ (m.timer t).totalUs := by
  have hcount : (m.timer t).count = (durations t rs).length := by
    rw [h.timerCount, Nat.mod_eq_of_lt hlen]
  have htotal : (m.timer t).totalUs = (durations t rs).sum := by
    rw [h.timerTotal, Nat.mod_eq_of_lt hsum]
  have hmean : (m.timer t).meanUs = (durations t rs).sum / (durations t rs).length := by
    rw [Timer.meanUs, htotal, hcount]
    split <;> simp_all
  rw [hmean, htotal, h.timerMax]
  exact ⟨sum_div_length_le_max _, max_le_sum _⟩

end Metrics.Reports

/-- Fresh metrics, after any run of reports whose batch sizes are 64-bit values, report what the
run adds up to, with sums modulo `2^64`. While the count and sum of the batch sizes stay below
`2^64`, the mean batch size lies between the least and the largest; while those of a timer's
durations do, its mean is at most its maximum, which is at most its total. -/
theorem Metrics.snapshot_sumsModuloWord (rs : List Report)
    (hsizes : ∀ n ∈ batchSizes rs, n < wordSize) :
    let m := rs.foldl Metrics.apply {}
    m.Reports rs ∧
      ((batchSizes rs).length < wordSize → (batchSizes rs).sum < wordSize →
        m.batchSize.min ≤ m.batchSize.mean ∧ m.batchSize.mean ≤ m.batchSize.most) ∧
      ∀ t, (durations t rs).length < wordSize → (durations t rs).sum < wordSize →
        (m.timer t).meanUs ≤ (m.timer t).maxUs ∧ (m.timer t).maxUs ≤ (m.timer t).totalUs := by
  intro m
  have hreports : m.Reports rs := Metrics.reports_fresh rs hsizes
  exact ⟨hreports, hreports.batch_bounds, hreports.timer_bounds⟩

/-- The batch sizes and latencies of a short run, with drops and gauges between them. -/
theorem Metrics.snapshot_sumsModuloWord_shortRun :
    let rs := [Report.batchSize 3, .dropped 2, .batchSize 9, .queueSize 40, .batchSize 1,
      .batchLatency ⟨0, 100000⟩, .dropped 1, .batchSize 7, .batchLatency ⟨0, 300000⟩, .queueSize 7]
    (∀ n ∈ batchSizes rs, n < wordSize) ∧
      let m := rs.foldl Metrics.apply {}
      m.Reports rs ∧
        ((batchSizes rs).length < wordSize → (batchSizes rs).sum < wordSize →
          m.batchSize.min ≤ m.batchSize.mean ∧ m.batchSize.mean ≤ m.batchSize.most) ∧
        ∀ t, (durations t rs).length < wordSize → (durations t rs).sum < wordSize →
          (m.timer t).meanUs ≤ (m.timer t).maxUs ∧ (m.timer t).maxUs ≤ (m.timer t).totalUs :=
  ⟨by decide, Metrics.snapshot_sumsModuloWord _ (by decide)⟩

/-- Two durations of the largest microsecond count: the batch timer's total wraps around, so it
is not the sum of the durations, and falls below their maximum. -/
theorem Metrics.timerTotal_wraps :
    let rs := [Report.batchLatency ⟨wordMax, 0⟩, Report.batchLatency ⟨wordMax, 0⟩]
    let t := (rs.foldl Metrics.apply {}).timer .batch
    t.totalUs ≠ (durations .batch rs).sum ∧ t.totalUs < t.maxUs := by
  decide

end EntityLog.Pipeline
