/-
  StreamRelay/Framing/Marker.lean
  ===============================
  **The marker, the tags that follow it, and matching it byte by byte.**

  Every escape on the wire is the ten bytes `null-page-` followed by one tag byte. Reader and writer
  both look for the marker in a stream that arrives in pieces, so matching is a step function on the
  number of marker bytes matched so far: `advance` takes that number and one byte to the next
  number, and `matched` folds it over a run.

  The first byte of the marker, `n`, occurs nowhere else in it. So a byte that breaks a match can
  only begin a new match by being that first byte, and a completed match leaves nothing behind:
  `advance` needs no table.
-/
import StreamRelay.Bytes

namespace StreamRelay.Framing

/-- The bytes that introduce every escape. -/
def marker : Bytes := Bytes.ofAscii ['n', 'u', 'l', 'l', '-', 'p', 'a', 'g', 'e', '-']

/-! ### Tags -/

/-- What an escape says: the stream starts, the marker before this tag is payload, or the stream
    finishes. -/
inductive Tag where
  | start
  | mid
  | finish
deriving DecidableEq, Repr

def Tag.byte : Tag → UInt8
  | .start => 's'.toUInt8
  | .mid => 'm'.toUInt8
  | .finish => 'e'.toUInt8

def Tag.ofByte? (b : UInt8) : Option Tag :=
  if b = Tag.start.byte then some .start
  else if b = Tag.mid.byte then some .mid
  else if b = Tag.finish.byte then some .finish
  else none

@[simp] theorem Tag.ofByte?_byte (tag : Tag) : Tag.ofByte? tag.byte = some tag := by
  cases tag <;> decide

def Tag.sequence (tag : Tag) : Bytes := marker ++ [tag.byte]

def escapeLength : Nat := marker.length + 1

@[simp] theorem Tag.length_sequence (tag : Tag) : tag.sequence.length = escapeLength := by
  cases tag <;> rfl

/-! ### Matching byte by byte -/

/-- The number of marker bytes matched after one more byte, when `k` were matched before it. -/
def advance (k : Nat) (b : UInt8) : Nat :=
  if marker[k]? = some b then k + 1
  else if marker.head? = some b then 1
  else 0

/-- The number of marker bytes matched at the end of a run; all of them if the run ends in the
    marker. -/
def matched (bytes : Bytes) : Nat := bytes.foldl advance 0

/-- The number of bytes at the end of a run that may yet become a marker: a complete marker is not
    among them. -/
def pending (bytes : Bytes) : Nat :=
  if matched bytes = marker.length then 0 else matched bytes

@[simp] theorem length_marker : marker.length = 10 := rfl

theorem advance_le (k : Nat) (b : UInt8) : advance k b ≤ marker.length := by
  unfold advance
  split
  · next h =>
    obtain ⟨hk, _⟩ := List.getElem?_eq_some_iff.1 h
    omega
  · split <;> simp

theorem matched_le (bytes : Bytes) : matched bytes ≤ marker.length := by
  suffices h : ∀ k, k ≤ marker.length →
      bytes.foldl advance k ≤ marker.length from h 0 (Nat.zero_le _)
  induction bytes with
  | nil => exact fun _ hk => hk
  | cons b rest ih => exact fun k _ => ih _ (advance_le k b)

/-- At most nine bytes are ever pending. -/
theorem pending_lt (bytes : Bytes) : pending bytes < marker.length := by
  have h := matched_le bytes
  unfold pending
  split
  · simp
  · omega

@[simp] theorem matched_concat (bytes : Bytes) (b : UInt8) :
    matched (bytes ++ [b]) = advance (matched bytes) b := by
  simp [matched]

end StreamRelay.Framing
