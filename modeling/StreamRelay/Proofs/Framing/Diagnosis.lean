/-
  StreamRelay/Proofs/Framing/Diagnosis.lean
  =========================================
  **Which fault a decoder finds in a stream.**

  A stream that is no frame lacks its start, has a bad tag, or lacks its end. More than one of these
  may be true of it: a bad tag may stand behind a finish escape, and a marker may be cut off behind
  a bad tag. The leftmost fault is the one that is found, wherever the stream is cut into chunks,
  because a byte-by-byte reader never gets past it, and what it has read until there is known
  (`Reader.explains_run`).

  Main statements: the streams with each fault, said of their bytes alone (`decodeChunks_faults`),
  and the fault of a frame that is cut off (`decodeChunks_cut_off`).
-/
import StreamRelay.Proofs.Framing.Canonical

namespace StreamRelay.Framing

variable {chunks : List Bytes} {bytes : Bytes} {b : UInt8}

theorem start_prefix_frame (payload : Bytes) : Tag.start.sequence <+: frame payload := by
  refine ⟨stuff payload ++ Tag.finish.sequence, ?_⟩
  simp [frame]

/-- Behind a start escape and a stuffed payload a marker is followed by `b`, which is no tag for
    that place. -/
def BadTag (bytes : Bytes) (b : UInt8) : Prop :=
  b ≠ Tag.mid.byte ∧ b ≠ Tag.finish.byte ∧
    ∃ payload rest, bytes = Tag.start.sequence ++ stuff payload ++ marker ++ [b] ++ rest

theorem BadTag.start_prefix (h : BadTag bytes b) : Tag.start.sequence <+: bytes := by
  obtain ⟨_, _, payload, rest, rfl⟩ := h
  refine ⟨stuff payload ++ marker ++ [b] ++ rest, ?_⟩
  simp

/-- **A reader that comes to a bad tag goes no further**, whatever follows. -/
theorem BadTag.decodeChunks_eq (h : BadTag chunks.flatten b) :
    decodeChunks chunks = .error (.invalidTag b) := by
  obtain ⟨hmid, hfinish, payload, rest, hbytes⟩ := h
  rw [Framing.decodeChunks_eq, hbytes, Reader.run_append, Reader.run_bad_tag payload hmid hfinish,
    Reader.run_refused]
  rfl

/-- What a stream decodes to, with the bytes that account for it. -/
inductive Verdict (bytes : Bytes) : Except FramingError Bytes → Prop where
  | missingStart (h : ¬ Tag.start.sequence <+: bytes) : Verdict bytes (.error .missingStart)
  | complete {payload : Bytes} (h : frame payload <+: bytes) : Verdict bytes (.ok payload)
  | badTag {b : UInt8} (h : BadTag bytes b) : Verdict bytes (.error (.invalidTag b))
  | missingEnd (h : Tag.start.sequence <+: bytes) : Verdict bytes (.error .missingEnd)

/-- **Every verdict on a stream is accounted for.** -/
theorem verdict (chunks : List Bytes) : Verdict chunks.flatten (decodeChunks chunks) := by
  have hexplains := Reader.explains_run chunks.flatten
  rw [decodeChunks_eq]
  generalize Reader.start.run chunks.flatten = r at hexplains
  rcases r with seen | ⟨payload, k⟩ | payload | ⟨payload, e⟩
  · -- all of the stream is a proper part of the start escape
    obtain ⟨hseen, hbytes⟩ := hexplains
    apply Verdict.missingStart
    intro hstart
    have hlength := hstart.length_le
    rw [hbytes, List.length_take, Reader.length_start] at hlength
    omega
  · obtain ⟨_, _, hbytes⟩ := hexplains
    apply Verdict.missingEnd
    refine ⟨stuff payload ++ marker.take k, ?_⟩
    simp [hbytes]
  · exact .complete hexplains
  · rcases hexplains with ⟨rfl, hstart, _⟩ | ⟨b, rfl, hmid, hfinish, rest, hbytes⟩
    · exact .missingStart hstart
    · exact .badTag ⟨hmid, hfinish, payload, rest, hbytes.symm⟩

/-! ### One fault at a time -/

theorem decodeChunks_eq_missingStart :
    decodeChunks chunks = .error .missingStart ↔ ¬ Tag.start.sequence <+: chunks.flatten := by
  have hverdict := verdict chunks
  generalize decodeChunks chunks = outcome at hverdict
  cases hverdict with
  | missingStart h => simp [h]
  | complete h => simp [(start_prefix_frame _).trans h]
  | badTag h => simp [h.start_prefix]
  | missingEnd h => simp [h]

theorem decodeChunks_eq_invalidTag :
    decodeChunks chunks = .error (.invalidTag b) ↔ BadTag chunks.flatten b := by
  constructor
  · intro h
    have hverdict := verdict chunks
    rw [h] at hverdict
    cases hverdict with
    | badTag h => exact h
  · exact BadTag.decodeChunks_eq

theorem decodeChunks_eq_missingEnd :
    decodeChunks chunks = .error .missingEnd ↔
      (∀ payload, decodeChunks chunks ≠ .ok payload) ∧ Tag.start.sequence <+: chunks.flatten ∧
        ∀ b, ¬ BadTag chunks.flatten b := by
  constructor
  · intro h
    have hverdict := verdict chunks
    rw [h] at hverdict
    cases hverdict with
    | missingEnd hstart =>
      refine ⟨by simp [h], hstart, ?_⟩
      intro b hbad
      have hinvalid := hbad.decodeChunks_eq
      simp [h] at hinvalid
  · rintro ⟨hrejected, hstart, hgood⟩
    have hverdict := verdict chunks
    generalize decodeChunks chunks = outcome at hverdict hrejected ⊢
    cases hverdict with
    | missingStart h => exact absurd hstart h
    | complete _ => exact absurd rfl (hrejected _)
    | badTag h => exact absurd h (hgood _)
    | missingEnd _ => rfl

/-! ### All faults -/

/-- **Which fault is found in a stream**, whatever the chunks it comes in: it lacks its start
    exactly if it does not begin with the start escape; it has a bad tag exactly if behind the start
    escape and a stuffed payload there is a marker with a byte behind it that is neither a mid tag
    nor a finish tag; and any other stream that is rejected lacks its end. -/
theorem decodeChunks_faults (chunks : List Bytes) :
    (decodeChunks chunks = .error .missingStart ↔ ¬ Tag.start.sequence <+: chunks.flatten) ∧
      (∀ b, decodeChunks chunks = .error (.invalidTag b) ↔
        b ≠ Tag.mid.byte ∧ b ≠ Tag.finish.byte ∧
          ∃ payload rest,
            chunks.flatten = Tag.start.sequence ++ stuff payload ++ marker ++ [b] ++ rest) ∧
      (decodeChunks chunks = .error .missingEnd ↔
        (∀ payload, decodeChunks chunks ≠ .ok payload) ∧ Tag.start.sequence <+: chunks.flatten ∧
          ∀ b, b ≠ Tag.mid.byte → b ≠ Tag.finish.byte →
            ∀ payload rest,
              chunks.flatten ≠ Tag.start.sequence ++ stuff payload ++ marker ++ [b] ++ rest) := by
  refine ⟨decodeChunks_eq_missingStart, fun b => decodeChunks_eq_invalidTag, ?_⟩
  rw [decodeChunks_eq_missingEnd]
  simp [BadTag]

/-- A bad tag is found before the end that is missing behind it, and one behind a finish escape is
    not found at all. -/
example :
    decodeChunks [Tag.start.sequence ++ marker ++ [Tag.start.byte], marker] =
      .error (.invalidTag Tag.start.byte) ∧
      decodeChunks [frame [97] ++ marker, [120]] = .ok [97] :=
  ⟨rfl, rfl⟩

/-- **A frame that is cut off lacks its start if the cut is in the start escape, and its end
    otherwise**: wherever it is cut, whatever the payload looks like, and whatever the chunks on
    either side. -/
theorem decodeChunks_cut_off {payloadChunks wireChunks : List Bytes}
    (h : wireChunks.flatten <+: encodeChunks payloadChunks)
    (hcut : wireChunks.flatten.length < (encodeChunks payloadChunks).length) :
    decodeChunks wireChunks =
      .error (if wireChunks.flatten.length < 11 then .missingStart else .missingEnd) := by
  rw [encodeChunks_eq_frame] at h hcut
  have hne : wireChunks.flatten ≠ frame payloadChunks.flatten := by
    intro heq
    rw [heq] at hcut
    exact Nat.lt_irrefl _ hcut
  have hlength : Tag.start.sequence.length = 11 := rfl
  split
  · next hshort =>
    rw [decodeChunks_eq_missingStart]
    intro hstart
    have hlong := hstart.length_le
    omega
  · next hlong =>
    have hstart : Tag.start.sequence <+: wireChunks.flatten := by
      apply List.prefix_of_prefix_length_le (start_prefix_frame _) h
      omega
    rcases decodeChunks_truncated h hne with hmissing | hmissing
    · exact absurd hstart (decodeChunks_eq_missingStart.1 hmissing)
    · exact hmissing

/-- The payload `null-page-e`, with its frame cut off in front of the last byte and in chunks that
    part marker and tag. -/
theorem decodeChunks_cut_off_before_last_byte :
    [Tag.start.sequence ++ marker, [], [Tag.mid.byte, Tag.finish.byte] ++ marker].flatten <+:
        encodeChunks [marker, [Tag.finish.byte]] ∧
      decodeChunks [Tag.start.sequence ++ marker, [], [Tag.mid.byte, Tag.finish.byte] ++ marker] =
        .error .missingEnd := by
  have hcut : [Tag.start.sequence ++ marker, [],
      [Tag.mid.byte, Tag.finish.byte] ++ marker].flatten <+:
      encodeChunks [marker, [Tag.finish.byte]] := by
    decide
  exact ⟨hcut, decodeChunks_cut_off hcut (by decide)⟩

end StreamRelay.Framing
