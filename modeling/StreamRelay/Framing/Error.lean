/-
  StreamRelay/Framing/Error.lean
  ==============================
  **How a framed stream can be malformed.**
-/
import StreamRelay.Bytes

namespace StreamRelay.Framing

/-- The structural faults of a framed stream: it does not open with the start escape, a marker is
    followed by a byte that is no tag for that place, or the input ends before the finish escape. -/
inductive FramingError where
  | missingStart
  | invalidTag (tag : UInt8)
  | missingEnd
deriving DecidableEq, Repr

def FramingError.message : FramingError → String
  | .missingStart => "did not get pagination start"
  | .invalidTag tag => "got an invalid pagination sequence (tag byte 0x" ++ hexByte tag ++ ")"
  | .missingEnd => "did not get pagination end"

end StreamRelay.Framing
