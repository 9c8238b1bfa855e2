/-
  StreamRelay/Framing/Decoder.lean
  ================================
  **The reading side of the framing.**

  A decoder is handed a window: the bytes it could not yet vouch for, followed by new input. It
  takes the escapes out and says how much of what is left is payload. What it cannot vouch for stays
  at the end of the window: part of a start escape, part of a marker, or a whole marker whose tag
  has not arrived. After the finish escape everything is dropped.
-/
import StreamRelay.Framing.Marker
import StreamRelay.Framing.Error

namespace StreamRelay.Framing

/-- Where a decoder stands in the stream: before the start escape, in the payload, or past the
    finish escape. -/
inductive Decoder where
  | notStarted
  | started
  | ended
deriving DecidableEq, Repr

/-- A decoded window: its bytes without the escapes, of which the first `safe` are payload. -/
structure Decoded where
  window : Bytes
  safe : Nat
deriving DecidableEq, Repr

/-! ### Taking the escapes out -/

/-- The outcome of scanning payload: input ran out with `matched` bytes of a marker at the end of
    what was kept, the finish escape came, or a marker was followed by a byte that is no tag here.
    -/
inductive Scan where
  | more (kept : Array UInt8) (matched : Nat)
  | finished (kept : Array UInt8)
  | invalid (tag : UInt8)

/-- Scan payload with `matched` marker bytes at the end of what is kept already. A byte that follows
    a whole marker is a tag: a mid tag is dropped and its marker kept, a finish tag ends the payload
    before its marker. -/
def scan (kept : Array UInt8) (matched : Nat) : Bytes → Scan
  | [] => .more kept matched
  | b :: rest =>
    if matched = marker.length then
      match Tag.ofByte? b with
      | some .mid => scan kept 0 rest
      | some .finish => .finished (kept.extract 0 (kept.size - marker.length))
      | _ => .invalid b
    else scan (kept.push b) (advance matched b) rest

def decodePayload (window : Bytes) (last : Bool) : Decoder × Except FramingError Decoded :=
  match scan #[] 0 window with
  | .finished kept => (.ended, .ok ⟨kept.toList, kept.size⟩)
  | .invalid tag => (.started, .error (.invalidTag tag))
  | .more kept matched =>
    if last then (.started, .error .missingEnd)
    else (.started, .ok ⟨kept.toList, kept.size - matched⟩)

/-- **Decode one window.** A stream that disagrees with the start escape is refused as soon as it
    does; a window past the finish escape is dropped whole. -/
def Decoder.decode (decoder : Decoder) (window : Bytes) (last : Bool) :
    Decoder × Except FramingError Decoded :=
  match decoder with
  | .ended => (.ended, .ok ⟨[], 0⟩)
  | .started => decodePayload window last
  | .notStarted =>
    let seen := window.take escapeLength
    if seen ≠ Tag.start.sequence.take seen.length then (.notStarted, .error .missingStart)
    else if seen.length < escapeLength then
      if last then (.notStarted, .error .missingStart)
      else (.notStarted, .ok ⟨window, 0⟩)
    else decodePayload (window.drop escapeLength) last

/-! ### A whole stream, chunk by chunk -/

/-- A stream in the course of being decoded: the decoder, the bytes it has not vouched for, and the
    payload so far. -/
structure Decoding where
  decoder : Decoder
  held : Bytes
  payload : Array UInt8

def Decoding.start : Decoding := ⟨.notStarted, [], #[]⟩

def Decoding.feed (d : Decoding) (chunk : Bytes) (last : Bool) : Except FramingError Decoding :=
  let (decoder, outcome) := d.decoder.decode (d.held ++ chunk) last
  match outcome with
  | .error e => .error e
  | .ok r => .ok ⟨decoder, r.window.drop r.safe, d.payload ++ r.window.take r.safe⟩

/-- **Decode a stream that comes as the given chunks**: its payload, or the first error. -/
def decodeChunks (chunks : List Bytes) : Except FramingError Bytes := do
  let d ← chunks.foldlM (fun d chunk => d.feed chunk false) Decoding.start
  let d ← d.feed [] true
  return d.payload.toList

end StreamRelay.Framing
