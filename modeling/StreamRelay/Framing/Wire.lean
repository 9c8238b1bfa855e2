/-
  StreamRelay/Framing/Wire.lean
  =============================
  **What a framed stream is, said without any encoder or decoder.**

  A stream is framed by a start escape, the payload with a mid tag put behind every marker that
  occurs in it, and a finish escape. `stuff` says where the tags go by looking at what stands before
  each position, so it is a definition of the wire and not a way to produce it piece by piece; the
  encoder and the decoder are measured against it.
-/
import StreamRelay.Framing.Marker

namespace StreamRelay.Framing

def OccursAt (bytes : Bytes) (offset : Nat) : Prop := marker <+: bytes.drop offset

instance (bytes : Bytes) (offset : Nat) : Decidable (OccursAt bytes offset) := by
  unfold OccursAt; infer_instance

/-- The offsets at which the marker occurs, overlapping ones included. -/
def occurrences (bytes : Bytes) : List Nat :=
  (List.range bytes.length).filter fun offset => OccursAt bytes offset

/-- The rest of a payload with a mid tag behind every marker, given the payload before it. -/
def stuffAfter (before : Bytes) : Bytes → Bytes
  | [] => []
  | b :: rest =>
    if marker <:+ before ++ [b] then b :: Tag.mid.byte :: stuffAfter (before ++ [b]) rest
    else b :: stuffAfter (before ++ [b]) rest

/-- A payload with a mid tag behind every occurrence of the marker. -/
def stuff (payload : Bytes) : Bytes := stuffAfter [] payload

/-- **The framed form of a payload**: start escape, stuffed payload, finish escape. -/
def frame (payload : Bytes) : Bytes := Tag.start.sequence ++ stuff payload ++ Tag.finish.sequence

end StreamRelay.Framing
