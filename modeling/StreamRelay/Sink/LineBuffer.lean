/-
  StreamRelay/Sink/LineBuffer.lean
  ================================
  **Standard output and its write buffer.**

  What is passed through collects up to the end of a line. A block that has a line end in it sends
  what is held and everything up to its last line end; the rest of the block is held. A block
  without one is held too, in a buffer of 1024 bytes. So bytes that an output file puts on standard
  output itself may come out before bytes that were passed through earlier.
-/
import StreamRelay.Journal

namespace StreamRelay.LineBuffer

def size : Nat := 1024

def lineEnd : UInt8 := 0x0a

def splitLines (bytes : Bytes) : Bytes × Bytes :=
  let rest := (bytes.reverse.takeWhile (· != lineEnd)).reverse
  (bytes.take (bytes.length - rest.length), rest)

/-- Hold a block that has no line end in it: the bytes sent and the bytes held after it. A block
    that does not fit next to what is held makes the buffer send that first; a block as large as the
    buffer is never held. -/
def hold (held bytes : Bytes) : Bytes × Bytes :=
  let (sent, held) := if size - held.length < bytes.length then (held, []) else ([], held)
  if size ≤ bytes.length then (sent ++ bytes, held) else (sent, held ++ bytes)

/-- **Write a block**: the bytes sent and the bytes held after it. -/
def write (held bytes : Bytes) : Bytes × Bytes :=
  let (lines, rest) := splitLines bytes
  if lines.isEmpty then hold held rest
  else
    let (sent, kept) := hold [] rest
    (held ++ lines ++ sent, kept)

def step (held : Bytes) : Event → Bytes × Bytes
  | .wrote bytes => write held bytes
  | .flushed => (held, [])
  | .emitted .output bytes => (bytes, held)
  | _ => ([], held)

/-- **All bytes that events bring to standard output**, in order; what is held at the end is sent
    last. -/
def sent (held : Bytes) : List Event → Bytes
  | [] => held
  | event :: events =>
    let (bytes, held) := step held event
    bytes ++ sent held events

end StreamRelay.LineBuffer
