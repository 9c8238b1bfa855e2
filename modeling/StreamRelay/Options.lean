/-
  StreamRelay/Options.lean
  ========================
  **The options of a relay, and which of them can be used.**
-/
import StreamRelay.Clock
import StreamRelay.Framing.Marker
import StreamRelay.Journal

namespace StreamRelay

def defaultBufferSize : Nat := 100000

/-- The smallest buffer. It holds several escapes, so the bytes that may not be released yet never
    fill it. -/
def minBufferSize : Nat := Framing.escapeLength * 6

/-- What a relay is asked to do. Counts of zero mean: no dots, no cap on the input, no ceiling on
    the rate. -/
structure Options where
  /-- Size of the read-ahead buffer in bytes. -/
  bufferSize : Nat := defaultBufferSize
  /-- Read the whole input before anything is released. -/
  readAll : Bool := false
  /-- Show a dot for this many bytes released. -/
  dotEvery : Nat := 0
  /-- Show the rate this often. -/
  rateEvery : Option Duration := none
  /-- Stop reading after this many bytes. -/
  stopAfter : Nat := 0
  /-- Ceiling on the bytes released per second. -/
  throttle : Nat := 0
  /-- Copy the payload to the pass-through output. -/
  passThrough : Bool := false
  /-- The input is framed. -/
  readFraming : Bool := false
  /-- Frame the pass-through output. -/
  writeFraming : Bool := false
  /-- Compute a signature of the payload. -/
  digest : Bool := false
  /-- Wait for input before each read. -/
  nonBlocking : Bool := false
  /-- Store every write at once. -/
  flushEach : Bool := false
deriving DecidableEq, Repr

inductive ConfigError where
  | bufferTooSmall (size : Nat)
  | noRateInterval
deriving DecidableEq, Repr

def ConfigError.message : ConfigError → String
  | .bufferTooSmall size =>
    "buffer size " ++ toString size ++ " is below the minimum of " ++ toString minBufferSize ++
      " bytes"
  | .noRateInterval => "rate report interval must be positive"

def framingDisabled : String := "disabling write pagination since pass-through is disabled"

/-- **Reject options that cannot be used, and settle those that depend on others.** Framing the
    pass-through output without one is switched off with a warning. -/
def Options.validate (o : Options) : Except ConfigError (Options × List Event) :=
  if o.bufferSize < minBufferSize then .error (.bufferTooSmall o.bufferSize)
  else if o.rateEvery = some 0 then .error .noRateInterval
  else if o.writeFraming && !o.passThrough then
    .ok ({ o with writeFraming := false }, [.warned framingDisabled])
  else .ok (o, [])

end StreamRelay
