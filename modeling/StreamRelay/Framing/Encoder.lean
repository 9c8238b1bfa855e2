/-
  StreamRelay/Framing/Encoder.lean
  ================================
  **The writing side of the framing.**

  An encoder only remembers whether the start and the finish escape were written. Stuffing itself
  keeps no state: a window of payload is scanned from its first byte, and the bytes at its end that
  may yet become a marker are withheld unless nothing follows. The caller offers withheld bytes
  again in front of what comes next.
-/
import StreamRelay.Framing.Marker

namespace StreamRelay.Framing

/-! ### Stuffing one window -/

/-- A window in the course of being stuffed: the bytes produced so far and how much of the marker
    they end in. -/
structure Stuffing where
  out : Array UInt8
  matched : Nat
deriving Repr

def Stuffing.empty : Stuffing := ⟨#[], 0⟩

/-- Take one payload byte: copy it, and put a mid tag behind it if it completes a marker. -/
def Stuffing.push (s : Stuffing) (b : UInt8) : Stuffing :=
  let k := advance s.matched b
  let out := s.out.push b
  ⟨if k = marker.length then out.push Tag.mid.byte else out, k⟩

def Stuffing.pending (s : Stuffing) : Nat := if s.matched = marker.length then 0 else s.matched

/-- What encoding one window gives: the bytes for the wire and how many bytes of the window they
    stand for. -/
structure Encoded where
  out : Bytes
  used : Nat
deriving DecidableEq, Repr

/-- Stuff one window of payload. Unless it is the last, the bytes at its end that may become a
    marker are withheld. -/
def encode (window : Bytes) (last : Bool) : Encoded :=
  let s := window.foldl Stuffing.push .empty
  let held := if last then 0 else s.pending
  ⟨(s.out.extract 0 (s.out.size - held)).toList, window.length - held⟩

/-! ### The encoder's life -/

inductive Encoder where
  | fresh
  | opened
  | closed
deriving DecidableEq, Repr

/-- Write the start escape; only the first call writes anything. -/
def Encoder.begin : Encoder → Bytes × Encoder
  | .fresh => (Tag.start.sequence, .opened)
  | e => ([], e)

/-- Write the finish escape; only the first call after `begin` writes anything. -/
def Encoder.finish : Encoder → Bytes × Encoder
  | .opened => (Tag.finish.sequence, .closed)
  | e => ([], e)

/-! ### A whole payload, chunk by chunk -/

/-- Stuff chunks in order, offering withheld bytes again in front of the next chunk. Gives what was
    written so far and what is still withheld. -/
def encodeOpen (chunks : List Bytes) : Array UInt8 × Bytes :=
  chunks.foldl
    (fun (out, carry) chunk =>
      let window := carry ++ chunk
      let e := encode window false
      (out ++ e.out, window.drop e.used))
    (#[], [])

/-- **Frame a payload that comes as the given chunks.** -/
def encodeChunks (chunks : List Bytes) : Bytes :=
  let (opening, encoder) := Encoder.fresh.begin
  let (body, carry) := encodeOpen chunks
  opening ++ body.toList ++ (encode carry true).out ++ encoder.finish.1

end StreamRelay.Framing
