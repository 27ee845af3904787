/-!
# The bounded queue

A first-in first-out queue with a fixed capacity. An offer is refused when the queue is closed
or full; draining takes the oldest items, at most a given number of them. Closing only stops
new offers: what is queued can still be drained.
-/

namespace EntityLog.Pipeline

/-- A bounded queue: the items oldest first, whether it is closed, and its capacity. -/
structure BoundedQueue (α : Type) where
  items : List α := []
  closed : Bool := false
  capacity : Nat
  deriving Repr

namespace BoundedQueue

variable {α : Type}

/-- An empty, open queue. -/
def empty (capacity : Nat) : BoundedQueue α := { capacity := capacity }

/-- The number of queued items. -/
def size (q : BoundedQueue α) : Nat := q.items.length

/-- Room left before the queue is full. -/
def remaining (q : BoundedQueue α) : Nat := q.capacity - q.size

/-- Whether nothing is queued. -/
def isEmpty (q : BoundedQueue α) : Bool := q.items.isEmpty

/-- Offers an item: accepted at the back unless the queue is closed or full. -/
def offer (q : BoundedQueue α) (x : α) : BoundedQueue α × Bool :=
  if q.closed || q.size ≥ q.capacity then (q, false)
  else ({ q with items := q.items ++ [x] }, true)

/-- Takes at most `max` of the oldest items, in order. -/
def drain (q : BoundedQueue α) (max : Nat) : BoundedQueue α × List α :=
  ({ q with items := q.items.drop max }, q.items.take max)

/-- Moves at most `max` of the oldest items, in order, onto the end of `buf`: the queue left, the
buffer, and how many moved. -/
def drainInto (q : BoundedQueue α) (buf : List α) (max : Nat) : BoundedQueue α × List α × Nat :=
  let (q, moved) := q.drain max
  (q, buf ++ moved, moved.length)

/-- Takes every item, in order. -/
def drainAll (q : BoundedQueue α) : BoundedQueue α × List α :=
  ({ q with items := [] }, q.items)

/-- Stops further offers. -/
def close (q : BoundedQueue α) : BoundedQueue α := { q with closed := true }

end BoundedQueue

end EntityLog.Pipeline
