import SystemyOperacyjne.Library.Machine

/-!
# The atomic bounded queue

The queue of capacity `cap` as a machine: an insertion is enabled while fewer than
`cap` items are held, a removal yields the oldest item held.
-/

namespace Concurrency

/-- The operations of a queue, with the item inserted or removed. -/
inductive QueueOp (α : Type)
  | enqueue (a : α)
  | dequeue (a : α)
  deriving DecidableEq, Repr

/-- The queue that holds at most `cap` items. -/
def boundedFifo (α : Type) [DecidableEq α] (cap : ℕ) : Machine (List α) (QueueOp α) where
  init q := q = []
  next
    | q, .enqueue a => if q.length < cap then some (q ++ [a]) else none
    | [], .dequeue _ => none
    | b :: q, .dequeue a => if b = a then some q else none

/-- The items inserted, in order. -/
def enqueued {α : Type} (ops : List (QueueOp α)) : List α :=
  ops.filterMap fun
    | .enqueue a => some a
    | .dequeue _ => none

/-- The items removed, in order. -/
def dequeued {α : Type} (ops : List (QueueOp α)) : List α :=
  ops.filterMap fun
    | .enqueue _ => none
    | .dequeue a => some a

@[simp] lemma enqueued_enqueue {α : Type} (a : α) (ops : List (QueueOp α)) :
    enqueued (.enqueue a :: ops) = a :: enqueued ops := rfl

@[simp] lemma enqueued_dequeue {α : Type} (a : α) (ops : List (QueueOp α)) :
    enqueued (.dequeue a :: ops) = enqueued ops := rfl

@[simp] lemma dequeued_enqueue {α : Type} (a : α) (ops : List (QueueOp α)) :
    dequeued (.enqueue a :: ops) = dequeued ops := rfl

@[simp] lemma dequeued_dequeue {α : Type} (a : α) (ops : List (QueueOp α)) :
    dequeued (.dequeue a :: ops) = a :: dequeued ops := rfl

section

variable {α : Type} [DecidableEq α] {cap : ℕ}

lemma boundedFifo_enqueue_eq_some {q r : List α} {a : α} :
    (boundedFifo α cap).next q (.enqueue a) = some r ↔ q.length < cap ∧ q ++ [a] = r := by
  simp [boundedFifo]

lemma boundedFifo_dequeue_eq_some {q r : List α} {a : α} :
    (boundedFifo α cap).next q (.dequeue a) = some r ↔ q = a :: r := by
  cases q with
  | nil => simp [boundedFifo]
  | cons b q => simp [boundedFifo]

/-- What was held and inserted is what was removed and is held, in this order. -/
theorem boundedFifo_exec {q r : List α} {ops : List (QueueOp α)}
    (h : (boundedFifo α cap).exec q ops = some r) : q ++ enqueued ops = dequeued ops ++ r := by
  induction ops generalizing q with
  | nil =>
    obtain rfl : q = r := by simpa using h
    simp [enqueued, dequeued]
  | cons op ops ih =>
    obtain ⟨q', hn, hr⟩ := Machine.exec_cons_eq_some.mp h
    have hi := ih hr
    cases op with
    | enqueue a =>
      obtain ⟨_, rfl⟩ := boundedFifo_enqueue_eq_some.mp hn
      simpa using hi
    | dequeue a =>
      obtain rfl := boundedFifo_dequeue_eq_some.mp hn
      simpa using hi

lemma boundedFifo_length_le {q r : List α} {ops : List (QueueOp α)}
    (h : (boundedFifo α cap).exec q ops = some r) (hq : q.length ≤ cap) : r.length ≤ cap := by
  induction ops generalizing q with
  | nil =>
    obtain rfl : q = r := by simpa using h
    exact hq
  | cons op ops ih =>
    obtain ⟨q', hn, hr⟩ := Machine.exec_cons_eq_some.mp h
    refine ih hr ?_
    cases op with
    | enqueue a =>
      obtain ⟨hlt, rfl⟩ := boundedFifo_enqueue_eq_some.mp hn
      simpa [Nat.succ_le_iff] using hlt
    | dequeue a =>
      obtain rfl := boundedFifo_dequeue_eq_some.mp hn
      simp only [List.length_cons] at hq
      omega

/-- From the empty queue, the `k`th item removed is the `k`th inserted, and between none
and `cap` items are inserted and not yet removed. -/
theorem boundedFifo_order {r : List α} {ops : List (QueueOp α)}
    (h : (boundedFifo α cap).exec [] ops = some r) :
    (∀ (k : ℕ) (a : α), (dequeued ops)[k]? = some a → (enqueued ops)[k]? = some a) ∧
      (dequeued ops).length ≤ (enqueued ops).length ∧
      (enqueued ops).length ≤ (dequeued ops).length + cap := by
  have heq : enqueued ops = dequeued ops ++ r := by simpa using boundedFifo_exec h
  have hlen := boundedFifo_length_le h (Nat.zero_le _)
  refine ⟨fun k a hk => ?_, by simp [heq], by simpa [heq] using hlen⟩
  obtain ⟨hlt, _⟩ := List.getElem?_eq_some_iff.mp hk
  rw [heq, List.getElem?_append_left hlt, hk]

end

end Concurrency
