/-
  StreamRelay/Proofs/Buffer/Queue.lean
  ====================================
  **The read-ahead buffer is a bounded queue of bytes.**

  A `BoundedQueue` is what a caller may think a buffer is: some bytes, and how many of them fit. A
  `BufferUse` is one thing that a caller may do with it, and `Allows` says when. Where the bytes
  lie, when they are shifted and when the indices start over does not show: in the view every use
  does to a buffer what it does to the queue (`Refines.step`).
-/
import StreamRelay.ReadBuffer

namespace StreamRelay

/-- One use of a buffer. To `fill` it, ask for space up to a limit, write to the front of the space,
    and say how many of the bytes written count; the others are lost. To `rewrite` it, write over
    the buffered bytes from an offset on. -/
inductive BufferUse where
  | fill (limit : Nat) (written : Bytes) (n : Nat)
  | consume (n : Nat)
  | truncate (n : Nat)
  | rewrite (offset : Nat) (bytes : Bytes)
  | grow
deriving DecidableEq, Repr

/-! ### The queue -/

/-- Bytes in order, and how many of them fit. -/
structure BoundedQueue where
  bytes : Bytes
  capacity : Nat
deriving DecidableEq, Repr

namespace BoundedQueue

def empty (capacity : Nat) : BoundedQueue := ⟨[], capacity⟩

/-- How many more bytes fit. -/
def free (q : BoundedQueue) : Nat := q.capacity - q.bytes.length

/-- The capacity after this one: twice as much, but something. -/
def doubled (capacity : Nat) : Nat := if capacity = 0 then 1 else 2 * capacity

/-- A use keeps to what is there: it writes into the space it is offered, and takes from the bytes
    that are queued. -/
def Allows (q : BoundedQueue) : BufferUse → Prop
  | .fill limit written n => written.length ≤ min limit q.free ∧ n ≤ written.length
  | .consume n => n ≤ q.bytes.length
  | .truncate _ => True
  | .rewrite offset bytes => offset + bytes.length ≤ q.bytes.length
  | .grow => True

/-- What a use does to a queue, if requests for `memory` bytes or more are refused. Only growing may
    fail, and then nothing changes. -/
def step (q : BoundedQueue) (memory : Nat) : BufferUse → BoundedQueue
  | .fill _ written n => { q with bytes := q.bytes ++ written.take n }
  | .consume n => { q with bytes := q.bytes.drop n }
  | .truncate n => { q with bytes := q.bytes.take n }
  | .rewrite offset bytes =>
    { q with bytes := q.bytes.take offset ++ bytes ++ q.bytes.drop (offset + bytes.length) }
  | .grow =>
    if doubled q.capacity < memory then { q with capacity := doubled q.capacity } else q

/-- A queue after uses, one after the other. -/
def run (q : BoundedQueue) (memory : Nat) (uses : List BufferUse) : BoundedQueue :=
  uses.foldl (step · memory) q

/-- Each use is allowed where it is made. -/
def AllowsAll (q : BoundedQueue) (memory : Nat) : List BufferUse → Prop
  | [] => True
  | use :: rest => q.Allows use ∧ (q.step memory use).AllowsAll memory rest

@[simp] theorem run_nil (q : BoundedQueue) (memory : Nat) : q.run memory [] = q := rfl

@[simp] theorem run_cons (q : BoundedQueue) (memory : Nat) (use : BufferUse)
    (rest : List BufferUse) :
    q.run memory (use :: rest) = (q.step memory use).run memory rest := rfl

theorem doubled_eq (capacity : Nat) : doubled capacity = capacity + max capacity 1 := by
  unfold doubled
  split <;> omega

end BoundedQueue

/-! ### The buffer as a queue -/

namespace ReadBuffer

variable {b b' : ReadBuffer} {q : BoundedQueue} {use : BufferUse} {memory : Nat}

/-- What a use does to a buffer. -/
def step (b : ReadBuffer) (memory : Nat) : BufferUse → ReadBuffer
  | .fill limit written n => (b.spare limit).1.append (written.take n)
  | .consume n => b.consume n
  | .truncate n => b.truncate n
  | .rewrite offset bytes => b.overwrite offset bytes
  | .grow =>
    match b.grow? memory with
    | .ok grown => grown
    | .error _ => b

/-- A buffer after uses, one after the other. -/
def run (b : ReadBuffer) (memory : Nat) (uses : List BufferUse) : ReadBuffer :=
  uses.foldl (step · memory) b

@[simp] theorem run_nil (b : ReadBuffer) (memory : Nat) : b.run memory [] = b := rfl

@[simp] theorem run_cons (b : ReadBuffer) (memory : Nat) (use : BufferUse) (rest : List BufferUse) :
    b.run memory (use :: rest) = (b.step memory use).run memory rest := rfl

/-- A buffer shows the bytes of a queue, and as many fit. -/
structure Refines (b : ReadBuffer) (q : BoundedQueue) : Prop where
  view : b.view = q.bytes
  capacity : b.capacity = q.capacity

theorem Refines.length (h : b.Refines q) : b.length = q.bytes.length := by
  rw [← b.length_view, h.view]

theorem capacity_grow? (h : b.grow? memory = .ok b') :
    b'.capacity = BoundedQueue.doubled b.capacity := by
  simp only [grow?] at h
  split at h
  · cases h
    exact (BoundedQueue.doubled_eq _).symm
  · cases h

theorem grow?_eq_error {bytes : Nat} :
    b.grow? memory = .error bytes ↔
      bytes = BoundedQueue.doubled b.capacity ∧ memory ≤ bytes := by
  rw [BoundedQueue.doubled_eq]
  simp only [grow?]
  split
  · next hfits =>
    simp only [reduceCtorEq, false_iff, not_and]
    intro hbytes
    omega
  · next hfits =>
    simp only [Except.error.injEq]
    constructor
    · intro hbytes
      exact ⟨hbytes.symm, by omega⟩
    · intro hbytes
      exact hbytes.1.symm

/-- **Growing doubles the capacity if there is memory for it**, and changes nothing otherwise. -/
theorem capacity_step_grow (b : ReadBuffer) (memory : Nat) :
    (b.step memory .grow).capacity =
      if BoundedQueue.doubled b.capacity < memory then BoundedQueue.doubled b.capacity
      else b.capacity := by
  simp only [step]
  split
  · next grown hgrow =>
    have hfits : ¬ memory ≤ BoundedQueue.doubled b.capacity := by
      intro hlarge
      have hfailed := grow?_eq_error.2 ⟨rfl, hlarge⟩
      rw [hgrow] at hfailed
      cases hfailed
    rw [if_pos (Nat.lt_of_not_le hfits)]
    exact capacity_grow? hgrow
  · next bytes hgrow =>
    obtain ⟨rfl, hlarge⟩ := grow?_eq_error.1 hgrow
    rw [if_neg (Nat.not_lt_of_le hlarge)]

theorem view_step_grow (b : ReadBuffer) (memory : Nat) :
    (b.step memory .grow).view = b.view := by
  simp only [step]
  split
  · next grown hgrow => exact view_grow? hgrow
  · rfl

theorem view_step_fill {limit n : Nat} {written : Bytes}
    (hwritten : written.length ≤ min limit (b.capacity - b.length)) :
    (b.step memory (.fill limit written n)).view = b.view ++ written.take n := by
  have hfits : (written.take n).length ≤
      (b.spare limit).1.capacity - (b.spare limit).1.data.size := by
    simp only [spare, capacity_compact, size_data_compact, List.length_take]
    omega
  simp only [step, view_append hfits, view_spare]

/-- **A use that is allowed does to the view of a buffer what it does to the queue.** -/
theorem Refines.step (h : b.Refines q) (hallowed : q.Allows use) :
    (b.step memory use).Refines (q.step memory use) := by
  cases use with
  | fill limit written n =>
    obtain ⟨hwritten, -⟩ := hallowed
    rw [BoundedQueue.free, ← h.length, ← h.capacity] at hwritten
    constructor
    · rw [view_step_fill hwritten, h.view]
      rfl
    · exact b.capacity_compact.trans h.capacity
  | consume n =>
    constructor
    · simp [ReadBuffer.step, BoundedQueue.step, h.view]
    · exact (b.capacity_consume n).trans h.capacity
  | truncate n =>
    constructor
    · simp [ReadBuffer.step, BoundedQueue.step, h.view]
    · exact h.capacity
  | rewrite offset bytes =>
    have hwithin : bytes.length ≤ b.length - offset := by
      have hlength : offset + bytes.length ≤ q.bytes.length := hallowed
      rw [h.length]
      omega
    constructor
    · simp only [ReadBuffer.step, BoundedQueue.step, view_overwrite, h.view,
        List.take_of_length_le hwithin]
    · exact h.capacity
  | grow =>
    constructor
    · rw [view_step_grow, h.view, BoundedQueue.step]
      split <;> rfl
    · rw [capacity_step_grow, h.capacity, BoundedQueue.step]
      split <;> rfl

end ReadBuffer

end StreamRelay
