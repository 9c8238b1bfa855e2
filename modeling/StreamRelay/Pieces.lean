/-
  StreamRelay/Pieces.lean
  =======================
  **Cutting a payload into pieces.**

  `inParts` cuts into pieces of one length, `bySplits` into pieces whose lengths are drawn from a
  list of numbers. Both give non-empty pieces that follow one another in the payload.
-/
import StreamRelay.Bytes

namespace StreamRelay.Pieces

def ofSize (size : Nat) : Bytes → List Bytes
  | [] => []
  | b :: rest => (b :: rest.take (size - 1)) :: ofSize size (rest.drop (size - 1))
termination_by bytes => bytes.length
decreasing_by
  rw [List.length_drop, List.length_cons]
  omega

/-- At most `parts` pieces of one length, the last one possibly shorter; none can be had from zero
    parts. -/
def inParts? (payload : Bytes) (parts : Nat) : Option (List Bytes) :=
  if parts = 0 then none
  else some (ofSize ((payload.length + parts - 1) / parts) payload)

/-- One piece per number while payload is left, and a last piece with what remains. The number
    counts, modulo what remains, the bytes that a piece has beyond its first. -/
def bySplits : List Nat → Bytes → List Bytes
  | _, [] => []
  | [], rest => [rest]
  | s :: splits, b :: rest =>
    let size := 1 + s % (rest.length + 1)
    (b :: rest).take size :: bySplits splits ((b :: rest).drop size)

end StreamRelay.Pieces
