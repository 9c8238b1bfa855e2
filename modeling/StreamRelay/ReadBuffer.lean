/-
  StreamRelay/ReadBuffer.lean
  ===========================
  **The read-ahead buffer.**

  Bytes are appended at the tail and consumed from the head. Consuming only moves the head; the
  bytes still buffered are shifted back before the next read, so that the free space is always one
  run at the tail. Callers see the buffer only through its view, the buffered bytes from the oldest
  on.

  The storage ends at the tail: free space beyond it is counted by the capacity and holds no bytes.
  The order of head, tail and capacity is part of the type.
-/
import StreamRelay.Bytes

namespace StreamRelay

/-- Buffered bytes are those of `data` from `head` on; at most `capacity` bytes fit. -/
structure ReadBuffer where
  data : Array UInt8
  head : Nat
  capacity : Nat
  head_le : head ≤ data.size
  size_le : data.size ≤ capacity
deriving Repr

namespace ReadBuffer

/-! ### Observing -/

def length (b : ReadBuffer) : Nat := b.data.size - b.head

def view (b : ReadBuffer) : Bytes := (b.data.extract b.head b.data.size).toList

def viewFrom (b : ReadBuffer) (offset : Nat) : Bytes :=
  (b.data.extract (b.head + offset) b.data.size).toList

def viewTo (b : ReadBuffer) (n : Nat) : Bytes := (b.data.extract b.head (b.head + n)).toList

def isEmpty (b : ReadBuffer) : Bool := b.length == 0

def isFull (b : ReadBuffer) : Bool := decide (b.capacity ≤ b.length)

@[simp] theorem length_view (b : ReadBuffer) : b.view.length = b.length := by
  simp [view, length]

theorem length_le_capacity (b : ReadBuffer) : b.length ≤ b.capacity := by
  have := b.size_le
  unfold length
  omega

/-! ### Storage -/

/-- An empty buffer; a request of `memory` bytes or more is refused with its size. -/
def ofCapacity? (memory capacity : Nat) : Except Nat ReadBuffer :=
  if capacity < memory then
    .ok { data := #[], head := 0, capacity, head_le := Nat.le_refl _, size_le := Nat.zero_le _ }
  else .error capacity

def compact (b : ReadBuffer) : ReadBuffer :=
  if b.head = 0 then b
  else
    { data := b.data.extract b.head b.data.size
      head := 0
      capacity := b.capacity
      head_le := Nat.zero_le _
      size_le := by have := b.size_le; simp; omega }

/-- Double the capacity, from zero to one; a request of `memory` bytes or more is refused with its
    size. -/
def grow? (b : ReadBuffer) (memory : Nat) : Except Nat ReadBuffer :=
  let capacity := b.capacity + max b.capacity 1
  if capacity < memory then
    .ok { b with capacity, size_le := by have := b.size_le; omega }
  else .error capacity

/-- Write bytes over those of an array from an index on, as far as the array goes. -/
def overwriteFrom (data : Array UInt8) (index : Nat) : Bytes → Array UInt8
  | [] => data
  | b :: rest => overwriteFrom (data.setIfInBounds index b) (index + 1) rest

@[simp] theorem size_overwriteFrom (data : Array UInt8) (index : Nat) (bytes : Bytes) :
    (overwriteFrom data index bytes).size = data.size := by
  induction bytes generalizing data index with
  | nil => rfl
  | cons b rest ih => simp [overwriteFrom, ih]

/-! ### Filling and draining -/

/-- Make the free space one run at the tail, and say how much of it, at most `limit` bytes, is
    offered. -/
def spare (b : ReadBuffer) (limit : Nat) : ReadBuffer × Nat :=
  let b := b.compact
  (b, min limit (b.capacity - b.data.size))

/-- Append bytes at the tail; what does not fit is left out. -/
def append (b : ReadBuffer) (bytes : Bytes) : ReadBuffer where
  data := b.data ++ (bytes.take (b.capacity - b.data.size)).toArray
  head := b.head
  capacity := b.capacity
  head_le := by
    have := b.head_le
    rw [Array.size_append]
    omega
  size_le := by
    have := b.size_le
    have taken : (bytes.take (b.capacity - b.data.size)).toArray.size ≤ b.capacity - b.data.size :=
      List.length_take_le _ _
    rw [Array.size_append]
    omega

/-- Drop bytes from the head. An emptied buffer starts over at the front of its storage. -/
def consume (b : ReadBuffer) (n : Nat) : ReadBuffer :=
  if h : b.head + n < b.data.size then { b with head := b.head + n, head_le := Nat.le_of_lt h }
  else
    { data := #[], head := 0, capacity := b.capacity
      head_le := Nat.le_refl _, size_le := Nat.zero_le _ }

def truncate (b : ReadBuffer) (n : Nat) : ReadBuffer where
  data := b.data.shrink (b.head + n)
  head := b.head
  capacity := b.capacity
  head_le := by
    have := b.head_le
    rw [Array.size_shrink]
    omega
  size_le := by
    have := b.size_le
    rw [Array.size_shrink]
    omega

/-- Write bytes over the buffered ones from an offset on, as far as bytes are buffered there. -/
def overwrite (b : ReadBuffer) (offset : Nat) (bytes : Bytes) : ReadBuffer where
  data := overwriteFrom b.data (b.head + offset) bytes
  head := b.head
  capacity := b.capacity
  head_le := by rw [size_overwriteFrom]; exact b.head_le
  size_le := by rw [size_overwriteFrom]; exact b.size_le

/-! ### What each operation does to the view -/

theorem view_eq_drop (b : ReadBuffer) : b.view = b.data.toList.drop b.head := by
  simp only [view, Array.toList_extract, List.extract_eq_take_drop]
  exact List.take_of_length_le (by simp)

@[simp] theorem viewFrom_eq (b : ReadBuffer) (offset : Nat) :
    b.viewFrom offset = b.view.drop offset := by
  rw [view_eq_drop, List.drop_drop]
  simp only [viewFrom, Array.toList_extract, List.extract_eq_take_drop]
  exact List.take_of_length_le (by simp)

@[simp] theorem viewTo_eq (b : ReadBuffer) (n : Nat) : b.viewTo n = b.view.take n := by
  rw [view_eq_drop]
  simp [viewTo, List.extract_eq_take_drop]

@[simp] theorem view_compact (b : ReadBuffer) : b.compact.view = b.view := by
  unfold compact
  split
  · rfl
  · simp only [view_eq_drop, List.drop_zero]
    exact b.view_eq_drop

@[simp] theorem view_spare (b : ReadBuffer) (limit : Nat) : (b.spare limit).1.view = b.view :=
  view_compact b

/-- Compacting puts the free space at the tail. -/
@[simp] theorem size_data_compact (b : ReadBuffer) : b.compact.data.size = b.length := by
  have := b.head_le
  unfold compact length
  split
  · omega
  · simp

@[simp] theorem capacity_compact (b : ReadBuffer) : b.compact.capacity = b.capacity := by
  unfold compact
  split <;> rfl

/-- **The space that is offered is all the free space, up to the limit.** -/
theorem spare_snd (b : ReadBuffer) (limit : Nat) :
    (b.spare limit).2 = min limit (b.capacity - b.length) := by
  simp [spare]

/-- **Bytes that fit are appended to the view.** -/
theorem view_append {b : ReadBuffer} {bytes : Bytes} (h : bytes.length ≤ b.capacity - b.data.size) :
    (b.append bytes).view = b.view ++ bytes := by
  simp only [view_eq_drop, append, List.take_of_length_le h, Array.toList_append]
  rw [List.drop_append_of_le_length (by simpa using b.head_le)]

@[simp] theorem append_nil (b : ReadBuffer) : b.append [] = b := by
  simp [append]

@[simp] theorem view_consume (b : ReadBuffer) (n : Nat) : (b.consume n).view = b.view.drop n := by
  unfold consume
  split
  · simp [view_eq_drop]
  · next h =>
    simp only [view_eq_drop, List.drop_drop]
    have past : b.data.toList.length ≤ b.head + n := by simpa using h
    rw [List.drop_eq_nil_of_le past]
    rfl

theorem length_consume (b : ReadBuffer) (n : Nat) : (b.consume n).length = b.length - n := by
  rw [← length_view, view_consume, List.length_drop, length_view]

theorem capacity_consume (b : ReadBuffer) (n : Nat) : (b.consume n).capacity = b.capacity := by
  unfold consume
  split <;> rfl

@[simp] theorem view_truncate (b : ReadBuffer) (n : Nat) : (b.truncate n).view = b.view.take n := by
  simp only [view_eq_drop, truncate, Array.toList_shrink, List.drop_take, Nat.add_sub_cancel_left]

theorem toList_overwriteFrom (data : Array UInt8) (index : Nat) (bytes : Bytes) :
    (overwriteFrom data index bytes).toList =
      data.toList.take index ++ bytes.take (data.size - index) ++
        data.toList.drop (index + bytes.length) := by
  induction bytes generalizing data index with
  | nil => rw [List.take_nil, List.append_nil, List.length_nil, Nat.add_zero,
    List.take_append_drop]; rfl
  | cons b rest ih =>
    rw [overwriteFrom, ih, Array.toList_setIfInBounds, Array.size_setIfInBounds, List.length_cons]
    by_cases h : index < data.size
    · have front : (data.toList.set index b).take (index + 1) = data.toList.take index ++ [b] := by
        rw [List.take_succ_eq_append_getElem (by rw [List.length_set]; exact h),
          List.getElem_set_self, List.take_set_of_le (Nat.le_refl _)]
      have back : (data.toList.set index b).drop (index + 1 + rest.length) =
          data.toList.drop (index + (rest.length + 1)) := by
        rw [List.drop_set_of_lt (by omega)]
        congr 1
        omega
      have middle : (b :: rest).take (data.size - index) =
          b :: rest.take (data.size - (index + 1)) := by
        rw [show data.size - index = (data.size - (index + 1)) + 1 by omega, List.take_succ_cons]
      rw [front, back, middle, List.append_cons (data.toList.take index) b (rest.take _)]
    · have short : data.toList.length ≤ index := by rw [Array.length_toList]; omega
      rw [List.set_eq_of_length_le short, List.take_of_length_le (Nat.le_succ_of_le short),
        List.take_of_length_le short, Nat.sub_eq_zero_of_le (by omega),
        Nat.sub_eq_zero_of_le (by omega), List.take_zero, List.take_zero,
        List.drop_eq_nil_of_le (by omega), List.drop_eq_nil_of_le (by omega)]

/-- **Overwriting replaces bytes of the view in place, as far as it goes.** -/
theorem view_overwrite (b : ReadBuffer) (offset : Nat) (bytes : Bytes) :
    (b.overwrite offset bytes).view =
      b.view.take offset ++ bytes.take (b.length - offset) ++
        b.view.drop (offset + bytes.length) := by
  have within := b.head_le
  rw [view_eq_drop, view_eq_drop, overwrite, toList_overwriteFrom, List.drop_drop,
    List.append_assoc, List.append_assoc, List.drop_append, List.length_take, Array.length_toList]
  by_cases h : b.head + offset ≤ b.data.size
  · rw [List.drop_take, Nat.add_sub_cancel_left, Nat.min_eq_left h,
      Nat.sub_eq_zero_of_le (Nat.le_add_right _ _), List.drop_zero, Nat.add_assoc,
      show b.data.size - (b.head + offset) = b.length - offset by unfold length; omega]
  · have none : b.data.size - (b.head + offset) = 0 := by omega
    have none' : b.length - offset = 0 := by unfold length; omega
    rw [List.drop_take, Nat.add_sub_cancel_left, none, none', List.take_zero, List.nil_append,
      List.drop_drop]
    congr 1
    rw [List.drop_eq_nil_of_le (by rw [Array.length_toList]; omega),
      List.drop_eq_nil_of_le (by rw [Array.length_toList]; omega), List.append_nil]

theorem view_grow? {b b' : ReadBuffer} {memory : Nat} (h : b.grow? memory = .ok b') :
    b'.view = b.view := by
  simp only [grow?] at h
  split at h
  · injection h with h
    exact h ▸ rfl
  · contradiction

end ReadBuffer

end StreamRelay
