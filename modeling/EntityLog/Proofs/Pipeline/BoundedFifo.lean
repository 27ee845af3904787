import EntityLog.Pipeline.Queue
/-!
# The bounded queue is a bounded first-in first-out queue

Each operation of the queue does what a bounded FIFO does: an offer joins the back exactly when
the queue is open and has room, and otherwise changes nothing; a drain moves the oldest items, as
many as asked or as there are, onto the end of the caller's buffer; draining all takes everything.

Over any sequence of calls (`QueueCall`) the queue is traced together with its history: the offers
it accepted and the items drained from it, in the order they left (`Traced`). Every call keeps the
queue within its capacity and keeps the history exact, so what was removed followed by what is
still queued is what was accepted (`Traced.Fifo`, kept by `Traced.call_fifo`); a whole sequence of
calls keeps it by induction (`Traced.run_fifo`).
-/

namespace EntityLog.Pipeline

namespace BoundedQueue

variable {α : Type} (q : BoundedQueue α)

/-! ## One operation at a time -/

/-- An offer is accepted exactly when the queue is open and holds fewer items than it can. -/
theorem offer_accepted_iff (x : α) :
    (q.offer x).2 = true ↔ q.closed = false ∧ q.size < q.capacity := by
  unfold offer
  split
  · rename_i hrefused
    simp only [Bool.or_eq_true, decide_eq_true_eq] at hrefused
    simp only [Bool.false_eq_true, false_iff, not_and, Nat.not_lt]
    intro hopen
    simpa [hopen] using hrefused
  · rename_i haccepted
    simp only [Bool.or_eq_true, decide_eq_true_eq, not_or, Bool.not_eq_true] at haccepted
    exact iff_of_true rfl ⟨haccepted.1, Nat.lt_of_not_le haccepted.2⟩

/-- An accepted offer joins the back of the queue; its flag and capacity stay. -/
theorem offer_of_accepted {x : α} (h : (q.offer x).2 = true) :
    (q.offer x).1 = { q with items := q.items ++ [x] } := by
  by_cases hrefused : (q.closed || q.size ≥ q.capacity) = true
  · simp [offer, hrefused] at h
  · simp only [offer, hrefused, Bool.false_eq_true, if_false]

/-- A refused offer leaves the queue exactly as it was. -/
theorem offer_of_refused {x : α} (h : (q.offer x).2 = false) : (q.offer x).1 = q := by
  by_cases hrefused : (q.closed || q.size ≥ q.capacity) = true
  · simp only [offer, hrefused, if_true]
  · simp [offer, hrefused] at h

/-- Draining into a buffer moves `min max size` of the oldest items, in order, onto its end, and
takes them from the front of the queue. -/
theorem drainInto_spec (buf : List α) (max : Nat) :
    let n := min max q.size
    q.drainInto buf max = ({ q with items := q.items.drop n }, buf ++ q.items.take n, n) := by
  simp only [drainInto, drain, List.length_take, size]
  rw [← List.take_eq_take_min, ← List.drop_eq_drop_min]

/-- Room left is capacity less size. -/
theorem remaining_eq : q.remaining = q.capacity - q.size := rfl

end BoundedQueue

/-! ## Runs of calls with their history -/

/-- A call on a queue, as a producer or a consumer makes it. -/
inductive QueueCall (α : Type) where
  | offer (x : α)
  | drainInto (buf : List α) (max : Nat)
  | drainAll
  | close
  | size
  | remaining

/-- A queue with its history: the offers it accepted and the items taken out of it, each in the
order it happened. -/
structure Traced (α : Type) where
  queue : BoundedQueue α
  accepted : List α := []
  removed : List α := []

namespace Traced

variable {α : Type}

/-- A fresh queue of capacity `c` with no history. -/
def start (c : Nat) : Traced α := ⟨BoundedQueue.empty c, [], []⟩

/-- Makes a call: an accepted offer is recorded, and what a drain moves into the caller's buffer
or hands back is recorded as removed. Asking the size or the room left changes nothing. -/
def call (t : Traced α) : QueueCall α → Traced α
  | .offer x =>
    let (q, ok) := t.queue.offer x
    { t with queue := q, accepted := if ok then t.accepted ++ [x] else t.accepted }
  | .drainInto buf max =>
    let (q, buf', _) := t.queue.drainInto buf max
    { t with queue := q, removed := t.removed ++ buf'.drop buf.length }
  | .drainAll =>
    let (q, items) := t.queue.drainAll
    { t with queue := q, removed := t.removed ++ items }
  | .close => { t with queue := t.queue.close }
  | .size | .remaining => t

/-- Makes the calls one after another. -/
def run (t : Traced α) (calls : List (QueueCall α)) : Traced α := calls.foldl call t

/-- A traced queue behaves as a FIFO queue of capacity `c`: it holds at most `c` items, and what
was removed followed by what is queued is what was accepted. -/
structure Fifo (c : Nat) (t : Traced α) : Prop where
  capacity : t.queue.capacity = c
  bounded : t.queue.size ≤ c
  history : t.removed ++ t.queue.items = t.accepted

theorem start_fifo (c : Nat) : Fifo c (start c : Traced α) :=
  ⟨rfl, Nat.zero_le c, rfl⟩

/-- Every call keeps a traced queue a bounded FIFO queue. -/
theorem call_fifo {c : Nat} {t : Traced α} (h : Fifo c t) (q : QueueCall α) :
    Fifo c (t.call q) := by
  cases q with
  | offer x =>
    cases hok : (t.queue.offer x).2 with
    | true =>
      obtain ⟨-, hroom⟩ := (t.queue.offer_accepted_iff x).1 hok
      have hq := t.queue.offer_of_accepted hok
      simp only [call, hq, hok, if_true]
      refine ⟨h.capacity, ?_, ?_⟩
      · simp only [BoundedQueue.size, List.length_append, List.length_singleton]
        rw [← h.capacity]
        exact hroom
      · rw [← h.history, List.append_assoc]
    | false =>
      have hq := t.queue.offer_of_refused hok
      simp only [call, hq, hok, Bool.false_eq_true, if_false]
      exact h
  | drainInto buf max =>
    simp only [call, BoundedQueue.drainInto_spec, List.drop_left]
    refine ⟨h.capacity, ?_, ?_⟩
    · simp only [BoundedQueue.size, List.length_drop]
      exact Nat.le_trans (Nat.sub_le _ _) h.bounded
    · rw [List.append_assoc, List.take_append_drop, h.history]
  | drainAll =>
    simp only [call, BoundedQueue.drainAll]
    exact ⟨h.capacity, Nat.zero_le c, by rw [List.append_nil, h.history]⟩
  | close => exact ⟨h.capacity, h.bounded, h.history⟩
  | size => exact h
  | remaining => exact h

/-- A whole sequence of calls keeps a traced queue a bounded FIFO queue. -/
theorem run_fifo {c : Nat} : ∀ {t : Traced α} (calls : List (QueueCall α)), Fifo c t →
    Fifo c (t.run calls)
  | _, [], h => h
  | _, q :: rest, h => run_fifo rest (call_fifo h q)

end Traced

/-- The bounded queue refines a bounded FIFO queue. After any sequence of calls on a queue of
capacity `c` (including `0`): it holds at most `c` items, and room left is `c` less its size; what
drains moved out, in the order it moved, followed by what is queued, is the sequence of accepted
offers; the next offer is accepted exactly when the queue is open and holds fewer than `c` items,
and a refused one changes nothing; the next drain into a buffer moves `min max size` of the oldest
items, in order, onto the end of the buffer and takes them from the queue. -/
theorem boundedQueue_refinesFifo {α : Type} (c : Nat) (calls : List (QueueCall α)) :
    let t := (Traced.start c).run calls
    t.queue.size ≤ c ∧ t.queue.remaining = c - t.queue.size ∧
      t.removed ++ t.queue.items = t.accepted ∧
      (∀ x, (t.queue.offer x).2 = true ↔ t.queue.closed = false ∧ t.queue.size < c) ∧
      (∀ x, (t.queue.offer x).2 = false → (t.queue.offer x).1 = t.queue) ∧
      ∀ buf max, let n := min max t.queue.size
        t.queue.drainInto buf max =
          ({ t.queue with items := t.queue.items.drop n }, buf ++ t.queue.items.take n, n) := by
  intro t
  have hfifo : Traced.Fifo c t := Traced.run_fifo calls (Traced.start_fifo c)
  refine ⟨hfifo.bounded, ?_, hfifo.history, fun x => ?_, fun x => t.queue.offer_of_refused,
    fun buf max => t.queue.drainInto_spec buf max⟩
  · rw [BoundedQueue.remaining_eq, hfifo.capacity]
  · rw [t.queue.offer_accepted_iff x, hfifo.capacity]

end EntityLog.Pipeline
