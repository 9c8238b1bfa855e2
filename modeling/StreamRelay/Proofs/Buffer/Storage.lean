/-
  StreamRelay/Proofs/Buffer/Storage.lean
  ======================================
  **The read-ahead buffer in a fixed run of cells.**

  A buffer's bytes end at the tail, so nothing it does can be out of bounds. `Storage` is the buffer
  as it lies in memory: as many cells as the capacity, stale bytes among them, and two indices. Here
  a range of cells is looked at or written only if it lies within the storage, and an operation that
  reached beyond would have no result. `Stores` relates the cells to the buffer, and every operation
  that is allowed has a result and keeps the relation (`Stores.step`).

  Main statement: however a buffer is used, its storage is never overrun, and all three of storage,
  buffer and queue agree (`run_stands`).
-/
import StreamRelay.Proofs.Buffer.Queue

namespace StreamRelay

/-- Cells, of which those from `head` up to `tail` are buffered bytes. -/
structure Storage where
  cells : Bytes
  head : Nat
  tail : Nat
deriving DecidableEq, Repr

namespace Storage

/-- The largest index there is. Adding to an index stops there. -/
def lastIndex : Nat := Nat.pow 2 64 - 1

/-- Cells that are set aside, and nothing in them yet. -/
def ofCapacity (capacity : Nat) : Storage := ⟨List.replicate capacity 0, 0, 0⟩

/-- The cells of a range, if it lies within the storage. -/
def range? (s : Storage) (first last : Nat) : Option Bytes :=
  if first ≤ last ∧ last ≤ s.cells.length then some ((s.cells.take last).drop first) else none

/-- Bytes over the cells from an index on. -/
def put (s : Storage) (index : Nat) (bytes : Bytes) : Storage :=
  { s with cells := s.cells.take index ++ bytes ++ s.cells.drop (index + bytes.length) }

/-- Write to the cells from an index on, if there are as many. -/
def write? (s : Storage) (index : Nat) (bytes : Bytes) : Option Storage :=
  if index + bytes.length ≤ s.cells.length then some (s.put index bytes) else none

/-- Move the buffered bytes to the front. Source and destination may overlap. -/
def compact? (s : Storage) : Option Storage :=
  if 0 < s.head then
    (s.range? s.head s.tail).bind fun moved =>
      (s.write? 0 moved).map fun s' => { s' with head := 0, tail := s.tail - s.head }
  else some s

/-- The cells behind the buffered bytes, at most so many of them. -/
def spare? (s : Storage) (limit : Nat) : Option (Storage × Bytes) :=
  s.compact?.bind fun s =>
    (s.range? s.tail (min s.cells.length (min (s.tail + limit) lastIndex))).map fun offered =>
      (s, offered)

/-- Count `n` more cells as buffered. -/
def commit? (s : Storage) (n : Nat) : Option Storage :=
  if s.tail + n ≤ s.cells.length then some { s with tail := s.tail + n } else none

/-- Write into the cells that are offered, and count `n` of them as buffered. -/
def fill? (s : Storage) (limit : Nat) (written : Bytes) (n : Nat) : Option Storage :=
  (s.spare? limit).bind fun (s, offered) =>
    if written.length ≤ offered.length then
      (s.write? s.tail written).bind fun s => s.commit? n
    else none

def consume? (s : Storage) (n : Nat) : Option Storage :=
  if s.head + n < s.tail then some { s with head := s.head + n }
  else if s.head + n = s.tail then some { s with head := 0, tail := 0 }
  else none

def truncate (s : Storage) (n : Nat) : Storage :=
  if n < s.tail - s.head then { s with tail := s.head + n } else s

def rewrite? (s : Storage) (offset : Nat) (bytes : Bytes) : Option Storage :=
  (s.range? (s.head + offset) s.tail).bind fun offered =>
    if bytes.length ≤ offered.length then s.write? (s.head + offset) bytes else none

/-- Set aside as many cells again, one at least, if there is memory for them. -/
def grow (s : Storage) (memory : Nat) : Storage :=
  let extra := max s.cells.length 1
  if s.cells.length + extra < memory then { s with cells := s.cells ++ List.replicate extra 0 }
  else s

def step? (s : Storage) (memory : Nat) : BufferUse → Option Storage
  | .fill limit written n => s.fill? limit written n
  | .consume n => s.consume? n
  | .truncate n => some (s.truncate n)
  | .rewrite offset bytes => s.rewrite? offset bytes
  | .grow => some (s.grow memory)

/-- The storage after uses, one after the other, if none of them reaches beyond it. -/
def run? (s : Storage) (memory : Nat) : List BufferUse → Option Storage
  | [] => some s
  | use :: rest => (s.step? memory use).bind fun s => s.run? memory rest

variable {s : Storage} {b : ReadBuffer} {q : BoundedQueue} {use : BufferUse} {memory : Nat}

theorem range?_of_le {first last : Nat} (horder : first ≤ last) (hlast : last ≤ s.cells.length) :
    s.range? first last = some ((s.cells.take last).drop first) :=
  if_pos ⟨horder, hlast⟩

section Put

variable {index n : Nat} {bytes : Bytes}

theorem write?_of_le (hfits : index + bytes.length ≤ s.cells.length) :
    s.write? index bytes = some (s.put index bytes) :=
  if_pos hfits

theorem length_put (hfits : index + bytes.length ≤ s.cells.length) :
    (s.put index bytes).cells.length = s.cells.length := by
  simp only [put, List.length_append, List.length_take, List.length_drop]
  omega

theorem take_put_of_ge (hn : index + bytes.length ≤ n) (hlength : n ≤ s.cells.length) :
    (s.put index bytes).cells.take n =
      (s.cells.take n).take index ++ bytes ++ (s.cells.take n).drop (index + bytes.length) := by
  have hfront : (s.cells.take index ++ bytes).length = index + bytes.length := by
    rw [List.length_append, List.length_take]
    omega
  simp only [put]
  rw [List.take_append, hfront, List.take_of_length_le (by omega), List.drop_take, List.take_take,
    Nat.min_eq_left (by omega)]

end Put

/-! ### What the cells hold -/

/-- The cells hold a buffer: as many as fit, with its bytes in front of the tail. -/
structure Stores (s : Storage) (b : ReadBuffer) : Prop where
  head : s.head = b.head
  cells : s.cells.length = b.capacity
  tail : s.tail = b.data.size
  bytes : s.cells.take s.tail = b.data.toList
  indexed : b.capacity ≤ lastIndex

namespace Stores

theorem head_le_tail (h : s.Stores b) : s.head ≤ s.tail := by
  rw [h.head, h.tail]
  exact b.head_le

theorem tail_le (h : s.Stores b) : s.tail ≤ s.cells.length := by
  rw [h.tail, h.cells]
  exact b.size_le

theorem length_eq (h : s.Stores b) : b.length = s.tail - s.head := by
  rw [h.head, h.tail, ReadBuffer.length]

/-- **The cells between the indices are the view.** -/
theorem range?_eq (h : s.Stores b) : s.range? s.head s.tail = some b.view := by
  rw [range?_of_le h.head_le_tail h.tail_le, h.bytes, h.head, b.view_eq_drop]

theorem compact? (h : s.Stores b) : ∃ s', s.compact? = some s' ∧ s'.Stores b.compact := by
  have htail := h.tail_le
  have hlength : b.view.length = s.tail - s.head := by rw [b.length_view, h.length_eq]
  unfold Storage.compact?
  by_cases hzero : s.head = 0
  · have hstay : b.compact = b := if_pos (h.head.symm.trans hzero)
    rw [if_neg (by omega), hstay]
    exact ⟨s, rfl, h⟩
  · have hfits : 0 + b.view.length ≤ s.cells.length := by omega
    rw [if_pos (Nat.pos_of_ne_zero hzero), h.range?_eq, Option.bind_some, write?_of_le hfits,
      Option.map_some]
    refine ⟨_, rfl, ?_⟩
    have hmoved : b.compact.data.toList = b.view ∧ b.compact.head = 0 := by
      rw [ReadBuffer.compact, if_neg (by rw [← h.head]; exact hzero)]
      exact ⟨rfl, rfl⟩
    constructor
    · exact hmoved.2.symm
    · rw [b.capacity_compact, ← h.cells]
      exact length_put hfits
    · rw [b.size_data_compact, h.length_eq]
    · have hin : 0 + b.view.length ≤ s.tail - s.head := by omega
      have hfront := take_put_of_ge (s := s) hin (by omega)
      rw [hmoved.1]
      refine hfront.trans ?_
      simp [← hlength]
    · rw [b.capacity_compact]
      exact h.indexed

/-- **The cells that are offered are all that are free**, up to the limit. -/
theorem spare? (h : s.Stores b) (limit : Nat) :
    ∃ s' offered, s.spare? limit = some (s', offered) ∧ s'.Stores (b.spare limit).1 ∧
      offered.length = (b.spare limit).2 := by
  obtain ⟨s', hcompact, h'⟩ := h.compact?
  have htail := h'.tail_le
  have hindexed := h'.indexed
  have hcells := h'.cells
  have hsize := h'.tail
  rw [Storage.spare?, hcompact, Option.bind_some, range?_of_le (by omega) (Nat.min_le_left _ _),
    Option.map_some]
  refine ⟨s', _, rfl, h', ?_⟩
  simp only [List.length_drop, List.length_take, ReadBuffer.spare]
  omega

theorem write_commit (h : s.Stores b) {written : Bytes} {n : Nat}
    (hfits : s.tail + written.length ≤ s.cells.length) (hn : n ≤ written.length) :
    ∃ s', ((s.write? s.tail written).bind fun s => s.commit? n) = some s' ∧
      s'.Stores (b.append (written.take n)) := by
  have hcells := h.cells
  have htail := h.tail
  have htaken : (written.take n).take (b.capacity - b.data.size) = written.take n := by
    apply List.take_of_length_le
    rw [List.length_take]
    omega
  have hlength := length_put hfits
  rw [write?_of_le hfits, Option.bind_some, Storage.commit?,
    if_pos (by rw [hlength]; simp only [put]; omega)]
  refine ⟨_, rfl, ?_⟩
  constructor
  · exact h.head
  · exact hlength.trans hcells
  · simp only [put, ReadBuffer.append, htaken, Array.size_append, List.size_toArray,
      List.length_take]
    omega
  · -- of what was written only the front counts
    have hfront := take_put_of_ge (n := s.tail + written.length) (Nat.le_refl _) hfits
    have hcounted : (s.put s.tail written).cells.take (s.tail + n) =
        ((s.put s.tail written).cells.take (s.tail + written.length)).take (s.tail + n) := by
      rw [List.take_take, Nat.min_eq_left (by omega)]
    rw [List.take_take, Nat.min_eq_left (Nat.le_add_right _ _), h.bytes,
      List.drop_eq_nil_of_le (List.length_take_le _ _), List.append_nil] at hfront
    simp only [ReadBuffer.append, htaken, Array.toList_append]
    refine hcounted.trans ?_
    rw [hfront, htail, ← Array.length_toList, List.take_length_add_append]
  · exact h.indexed

theorem fill? (h : s.Stores b) {limit n : Nat} {written : Bytes}
    (hwritten : written.length ≤ min limit (b.capacity - b.length)) (hn : n ≤ written.length) :
    ∃ s', s.fill? limit written n = some s' ∧
      s'.Stores (b.step memory (.fill limit written n)) := by
  obtain ⟨s', offered, hspare, hstores, hoffered⟩ := h.spare? limit
  rw [b.spare_snd] at hoffered
  have hfits : s'.tail + written.length ≤ s'.cells.length := by
    have hspace := b.length_le_capacity
    rw [hstores.tail, hstores.cells]
    simp only [ReadBuffer.spare, ReadBuffer.size_data_compact, ReadBuffer.capacity_compact]
    omega
  rw [Storage.fill?, hspare, Option.bind_some]
  simp only
  rw [if_pos (by omega)]
  exact hstores.write_commit hfits hn

theorem consume? (h : s.Stores b) {n : Nat} (hn : n ≤ b.length) :
    ∃ s', s.consume? n = some s' ∧ s'.Stores (b.consume n) := by
  have hhead := h.head
  have htail := h.tail
  have horder := h.head_le_tail
  rw [h.length_eq] at hn
  unfold Storage.consume? ReadBuffer.consume
  by_cases hrest : b.head + n < b.data.size
  · rw [if_pos (by omega), dif_pos hrest]
    refine ⟨_, rfl, ?_⟩
    constructor
    · exact congrArg (· + n) hhead
    · exact h.cells
    · exact htail
    · exact h.bytes
    · exact h.indexed
  · rw [if_neg (by omega), if_pos (by omega), dif_neg hrest]
    refine ⟨_, rfl, ?_⟩
    constructor
    · rfl
    · exact h.cells
    · rfl
    · rfl
    · exact h.indexed

theorem truncate (h : s.Stores b) (n : Nat) : (s.truncate n).Stores (b.truncate n) := by
  have hhead := h.head
  have htail := h.tail
  have horder := h.head_le_tail
  unfold Storage.truncate ReadBuffer.truncate
  by_cases hcut : n < s.tail - s.head
  · rw [if_pos hcut]
    constructor
    · exact hhead
    · exact h.cells
    · simp only [Array.size_shrink]
      omega
    · simp only [Array.toList_shrink]
      rw [← h.bytes, List.take_take, hhead, Nat.min_eq_left (by omega)]
    · exact h.indexed
  · rw [if_neg hcut]
    constructor
    · exact hhead
    · exact h.cells
    · simp only [Array.size_shrink]
      omega
    · simp only [Array.toList_shrink]
      rw [h.bytes, List.take_of_length_le (by rw [Array.length_toList]; omega)]
    · exact h.indexed

theorem rewrite? (h : s.Stores b) {offset : Nat} {bytes : Bytes}
    (hwithin : offset + bytes.length ≤ b.length) :
    ∃ s', s.rewrite? offset bytes = some s' ∧ s'.Stores (b.overwrite offset bytes) := by
  have htail := h.tail_le
  have horder := h.head_le_tail
  rw [h.length_eq] at hwithin
  have hin : s.head + offset + bytes.length ≤ s.tail := by omega
  have hoffered : bytes.length ≤ ((s.cells.take s.tail).drop (s.head + offset)).length := by
    simp only [List.length_drop, List.length_take]
    omega
  rw [Storage.rewrite?, range?_of_le (by omega) htail, Option.bind_some, if_pos hoffered,
    write?_of_le (by omega)]
  refine ⟨_, rfl, ?_⟩
  constructor
  · exact h.head
  · exact (length_put (by omega)).trans h.cells
  · simp only [ReadBuffer.overwrite, ReadBuffer.size_overwriteFrom]
    exact h.tail
  · have hsize : bytes.length ≤ b.data.size - (b.head + offset) := by
      rw [← h.head, ← h.tail]
      omega
    have hput := take_put_of_ge (n := s.tail) hin htail
    simp only [ReadBuffer.overwrite, ReadBuffer.toList_overwriteFrom, List.take_of_length_le hsize]
    refine hput.trans ?_
    rw [h.bytes, h.head]
  · exact h.indexed

theorem grow (h : s.Stores b) (hmemory : memory ≤ lastIndex) :
    (s.grow memory).Stores (b.step memory .grow) := by
  simp only [Storage.grow, ReadBuffer.step, ReadBuffer.grow?, h.cells]
  by_cases hfits : b.capacity + max b.capacity 1 < memory
  · simp only [if_pos hfits]
    constructor
    · exact h.head
    · simp only [List.length_append, List.length_replicate, h.cells]
    · exact h.tail
    · simp only [List.take_append_of_le_length h.tail_le, h.bytes]
    · exact Nat.le_trans (Nat.le_of_lt hfits) hmemory
  · simp only [if_neg hfits]
    exact h

/-- **Every use that is allowed stays within the storage**, and does to the cells what it does to
    the buffer. -/
theorem step (h : s.Stores b) (hmemory : memory ≤ lastIndex) (hrefines : b.Refines q)
    (hallowed : q.Allows use) :
    ∃ s', s.step? memory use = some s' ∧ s'.Stores (b.step memory use) := by
  cases use with
  | fill limit written n =>
    obtain ⟨hwritten, hn⟩ := hallowed
    rw [BoundedQueue.free, ← hrefines.length, ← hrefines.capacity] at hwritten
    exact h.fill? hwritten hn
  | consume n =>
    apply h.consume?
    rw [hrefines.length]
    exact hallowed
  | truncate n => exact ⟨_, rfl, h.truncate n⟩
  | rewrite offset bytes =>
    apply h.rewrite?
    rw [hrefines.length]
    exact hallowed
  | grow => exact ⟨_, rfl, h.grow hmemory⟩

end Stores

theorem stores_ofCapacity {capacity : Nat} (hmemory : memory ≤ lastIndex)
    (hnew : ReadBuffer.ofCapacity? memory capacity = .ok b) : (ofCapacity capacity).Stores b := by
  unfold ReadBuffer.ofCapacity? at hnew
  split at hnew
  · next hfits =>
    cases hnew
    constructor
    · rfl
    · exact List.length_replicate
    · rfl
    · rfl
    · exact Nat.le_trans (Nat.le_of_lt hfits) hmemory
  · cases hnew

/-! ### However the buffer is used -/

/-- Storage, buffer and queue say the same: the cells between the indices are the view and the
    queued bytes. -/
structure Agree (s : Storage) (b : ReadBuffer) (q : BoundedQueue) : Prop where
  cells : s.range? s.head s.tail = some q.bytes
  view : b.view = q.bytes
  head : s.head = b.head
  tail : s.tail = b.data.size
  head_le_tail : s.head ≤ s.tail
  tail_le_capacity : s.tail ≤ s.cells.length
  capacity : s.cells.length = q.capacity ∧ b.capacity = q.capacity

theorem Stores.agree (h : s.Stores b) (hrefines : b.Refines q) : s.Agree b q where
  cells := by rw [h.range?_eq, hrefines.view]
  view := hrefines.view
  head := h.head
  tail := h.tail
  head_le_tail := h.head_le_tail
  tail_le_capacity := h.tail_le
  capacity := ⟨h.cells.trans hrefines.capacity, hrefines.capacity⟩

theorem Stores.run (h : s.Stores b) (hmemory : memory ≤ lastIndex) (hrefines : b.Refines q)
    {uses : List BufferUse} (hallowed : q.AllowsAll memory uses) :
    ∃ s', s.run? memory uses = some s' ∧ s'.Stores (b.run memory uses) ∧
      (b.run memory uses).Refines (q.run memory uses) := by
  -- the storage never leaves its cells because it stores what the buffer has
  induction uses generalizing s b q with
  | nil => exact ⟨s, rfl, h, hrefines⟩
  | cons use rest ih =>
    obtain ⟨huse, hrest⟩ := hallowed
    obtain ⟨s', hstep, h'⟩ := h.step hmemory hrefines huse
    obtain ⟨s'', hrun, h''⟩ := ih h' (hrefines.step huse) hrest
    refine ⟨s'', ?_, h''⟩
    rw [run?, hstep, Option.bind_some, hrun]

/-- **A buffer is a bounded queue that never leaves its storage.** Whatever is done with a new
    buffer, as long as each use is allowed where it is made, storage, buffer and queue agree in the
    end. The buffer is full exactly if as many bytes are buffered as fit; for any limit it offers
    that much of the free space, and offering it does not change the view; growing it doubles the
    capacity and keeps the view, or fails and changes nothing. All of it holds whatever memory there
    is, if its last byte has an index. -/
theorem run_stands {capacity : Nat} (hmemory : memory ≤ lastIndex)
    (hnew : ReadBuffer.ofCapacity? memory capacity = .ok b) {uses : List BufferUse}
    (hallowed : (BoundedQueue.empty capacity).AllowsAll memory uses) :
    ∃ s, (ofCapacity capacity).run? memory uses = some s ∧
      s.Agree (b.run memory uses) ((BoundedQueue.empty capacity).run memory uses) ∧
      ((b.run memory uses).isFull = true ↔
        (b.run memory uses).length = (b.run memory uses).capacity) ∧
      (∀ limit, ∃ s' offered, s.spare? limit = some (s', offered) ∧
        offered.length =
          min limit ((b.run memory uses).capacity - (b.run memory uses).length) ∧
        ((b.run memory uses).spare limit).2 = offered.length ∧
        s'.Agree ((b.run memory uses).spare limit).1
          ((BoundedQueue.empty capacity).run memory uses)) ∧
      match (b.run memory uses).grow? memory with
      | .ok grown =>
        grown.capacity = BoundedQueue.doubled (b.run memory uses).capacity ∧
          grown.view = (b.run memory uses).view ∧
          (s.grow memory).Agree grown
            { (BoundedQueue.empty capacity).run memory uses with capacity := grown.capacity }
      | .error bytes =>
        bytes = BoundedQueue.doubled (b.run memory uses).capacity ∧
          (b.run memory uses).step memory .grow = b.run memory uses ∧ s.grow memory = s := by
  have hrefines : b.Refines (.empty capacity) := by
    unfold ReadBuffer.ofCapacity? at hnew
    split at hnew
    · cases hnew
      exact ⟨rfl, rfl⟩
    · cases hnew
  obtain ⟨s, hrun, hstores, hafter⟩ :=
    (stores_ofCapacity hmemory hnew).run hmemory hrefines hallowed
  generalize b.run memory uses = b at hstores hafter
  generalize (BoundedQueue.empty capacity).run memory uses = q at hafter
  refine ⟨s, hrun, hstores.agree hafter, ?_, ?_, ?_⟩
  · have hlength := b.length_le_capacity
    simp only [ReadBuffer.isFull, decide_eq_true_eq]
    omega
  · -- what is offered may be asked for after a shift to the front, which the view does not show
    intro limit
    obtain ⟨s', offered, hspare, hstores', hoffered⟩ := hstores.spare? limit
    refine ⟨s', offered, hspare, ?_, hoffered.symm, ?_⟩
    · rw [hoffered, b.spare_snd]
    · apply hstores'.agree
      constructor
      · rw [b.view_spare, hafter.view]
      · exact b.capacity_compact.trans hafter.capacity
  · have hgrown := hstores.grow hmemory
    rw [ReadBuffer.step] at hgrown
    split
    · next grown hgrow =>
      rw [hgrow] at hgrown
      have hview := ReadBuffer.view_grow? hgrow
      refine ⟨ReadBuffer.capacity_grow? hgrow, hview, hgrown.agree ?_⟩
      exact ⟨hview.trans hafter.view, rfl⟩
    · next bytes hgrow =>
      obtain ⟨hbytes, hlarge⟩ := ReadBuffer.grow?_eq_error.1 hgrow
      refine ⟨hbytes, ?_, ?_⟩
      · rw [ReadBuffer.step, hgrow]
      · rw [hbytes, BoundedQueue.doubled_eq, ← hstores.cells] at hlarge
        exact if_neg (Nat.not_lt_of_le hlarge)

/-- Bytes that wait at the end of the storage are shifted to the front for the next fill, a tail is
    rewritten and cut, and the storage grows. -/
theorem run_stands_shifted :
    ∃ s, (ofCapacity 4).run? 1000
        [.fill 9 [1, 2, 3, 4] 3, .consume 2, .fill 9 [5, 6, 7] 3, .rewrite 1 [8, 9], .truncate 3,
          .grow] = some s ∧
      s.range? s.head s.tail = some [3, 8, 9] ∧ s.cells.length = 8 := by
  have hallowed : (BoundedQueue.empty 4).AllowsAll 1000
      [.fill 9 [1, 2, 3, 4] 3, .consume 2, .fill 9 [5, 6, 7] 3, .rewrite 1 [8, 9], .truncate 3,
        .grow] := by
    simp [BoundedQueue.AllowsAll, BoundedQueue.Allows, BoundedQueue.step, BoundedQueue.empty,
      BoundedQueue.free]
  obtain ⟨s, hrun, hagree, -⟩ := run_stands (by decide) rfl hallowed
  exact ⟨s, hrun, hagree.cells, hagree.capacity.1⟩

end Storage

end StreamRelay
