/-
  StreamRelay/Proofs/Framing/Canonical.lean
  =========================================
  **Every payload has one framed form, and a decoder accepts nothing else.**

  Where a reader stands tells what it has read, byte for byte (`explains_run`): behind some payload
  it has read the start escape, the stuffed payload and the marker bytes it holds. The other way
  round, a reader of a frame comes past the finish escape with the framed payload (`run_frame`).
  Decoding is reading, so both carry over to streams that come in chunks, and a frame that is cut
  off anywhere is recognised as such (`decodeChunks_truncated`).
-/
import StreamRelay.Proofs.Framing.Reader
import StreamRelay.Proofs.Framing.Stuffing

namespace StreamRelay.Framing

theorem stuff_marker : stuff marker = marker ++ [Tag.mid.byte] := by decide

theorem matched_take_marker {k : Nat} (hk : k ≤ marker.length) : matched (marker.take k) = k := by
  rcases Nat.eq_zero_or_pos k with rfl | hpos
  · rfl
  · exact matched_append_take [] hpos hk

theorem seam_take_marker (before : Bytes) {k : Nat} (hk : 0 < k) : Seam before (marker.take k) :=
  Or.inr (by rw [List.head?_take, if_neg (Nat.ne_of_gt hk)])

theorem pending_append_marker (before : Bytes) : pending (before ++ marker) = 0 := by
  have hpos : 0 < marker.length := by decide
  have h := matched_append_take before hpos (Nat.le_refl _)
  rw [List.take_length] at h
  rw [pending, if_pos h]

namespace Reader

/-! ### What a reader has read -/

/-- The bytes that take a reader from the start to where it stands, as a property of the two. -/
def Explains (bytes : Bytes) : Reader → Prop
  | .opening seen => seen < escapeLength ∧ bytes = Tag.start.sequence.take seen
  | .reading payload k =>
    k ≤ marker.length ∧ Seam payload (marker.take k) ∧
      bytes = Tag.start.sequence ++ stuff payload ++ marker.take k
  | .finished payload => frame payload <+: bytes
  | .refused payload e =>
    (e = .missingStart ∧ ¬ Tag.start.sequence <+: bytes ∧ ¬ bytes <+: Tag.start.sequence) ∨
      ∃ b, e = .invalidTag b ∧ b ≠ Tag.mid.byte ∧ b ≠ Tag.finish.byte ∧
        Tag.start.sequence ++ stuff payload ++ marker ++ [b] <+: bytes

theorem explains_start : Explains [] start := ⟨Nat.zero_lt_succ _, rfl⟩

theorem Explains.step_opening {bytes : Bytes} {seen : Nat} (h : Explains bytes (opening seen))
    (b : UInt8) :
    Explains (bytes ++ [b]) ((opening seen).step b) := by
  obtain ⟨hseen, rfl⟩ := h
  have hfront : (Tag.start.sequence.take seen).length = seen := by
    rw [List.length_take, length_start]
    omega
  simp only [step]
  by_cases hb : Tag.start.sequence[seen]? = some b
  · have hgrown : Tag.start.sequence.take seen ++ [b] = Tag.start.sequence.take (seen + 1) := by
      rw [List.take_add_one, hb]
      rfl
    rw [if_pos hb, hgrown]
    by_cases hwhole : seen + 1 = escapeLength
    · rw [if_pos hwhole, hwhole, ← length_start, List.take_length]
      exact ⟨Nat.zero_le _, seam_nil _, (List.append_nil _).symm⟩
    · rw [if_neg hwhole]
      exact ⟨by omega, rfl⟩
  · -- whichever of the two were the longer, they have different bytes at position `seen`
    have hat : (Tag.start.sequence.take seen ++ [b])[seen]? = some b := by
      rw [List.getElem?_append_right (Nat.le_of_eq hfront), hfront, Nat.sub_self]
      rfl
    rw [if_neg hb]
    refine Or.inl ⟨rfl, ?_, ?_⟩
    · rintro ⟨rest, hrest⟩
      apply hb
      rw [← hat, ← hrest, List.getElem?_append_left (by rw [length_start]; exact hseen)]
    · rintro ⟨rest, hrest⟩
      have hlt : seen < (Tag.start.sequence.take seen ++ [b]).length := by
        rw [List.length_append, hfront]
        exact Nat.lt_succ_self _
      have hsame : (Tag.start.sequence.take seen ++ [b] ++ rest)[seen]? =
          (Tag.start.sequence.take seen ++ [b])[seen]? :=
        List.getElem?_append_left hlt
      rw [hrest] at hsame
      exact hb (hsame.trans hat)

theorem Explains.step_tag {bytes payload : Bytes}
    (h : Explains bytes (reading payload marker.length)) (b : UInt8) :
    Explains (bytes ++ [b]) ((reading payload marker.length).step b) := by
  obtain ⟨-, hseam, rfl⟩ := h
  rw [List.take_length] at hseam ⊢
  have hrefused (htag : ∀ tag, Tag.ofByte? b = some tag → tag = .start) :
      Explains (Tag.start.sequence ++ stuff payload ++ marker ++ [b])
      (refused payload (.invalidTag b)) := by
    refine Or.inr ⟨b, rfl, ?_, ?_, List.prefix_rfl⟩
    · rintro rfl
      exact absurd (htag .mid (Tag.ofByte?_byte .mid)) (by decide)
    · rintro rfl
      exact absurd (htag .finish (Tag.ofByte?_byte .finish)) (by decide)
  simp only [step, if_true]
  rcases htag : Tag.ofByte? b with _ | tag
  · exact hrefused (by simp [htag])
  · have hbyte := Tag.eq_byte_of_ofByte? htag
    rcases tag with _ | _ | _
    · exact hrefused (by simp [htag])
    · refine ⟨Nat.zero_le _, Or.inl (pending_append_marker payload), ?_⟩
      rw [hseam.stuff_append List.prefix_rfl, stuff_marker, hbyte]
      simp
    · refine ⟨[], ?_⟩
      rw [hbyte, frame, Tag.sequence.eq_1 .finish]
      simp

theorem Explains.step_payload {bytes payload : Bytes} {k : Nat}
    (h : Explains bytes (reading payload k)) (hk : k < marker.length) (b : UInt8) :
    Explains (bytes ++ [b]) ((reading payload k).step b) := by
  obtain ⟨-, hseam, rfl⟩ := h
  simp only [step, if_neg (Nat.ne_of_lt hk)]
  by_cases hnext : marker[k]? = some b
  · rw [if_pos hnext]
    refine ⟨hk, seam_take_marker payload (Nat.zero_lt_succ k), ?_⟩
    rw [take_succ_marker hnext, List.append_assoc _ (marker.take k)]
  · rw [if_neg hnext]
    by_cases hhead : marker.head? = some b
    · rw [if_pos hhead]
      refine ⟨by decide, seam_take_marker _ Nat.one_pos, ?_⟩
      rw [hseam.stuff_append List.prefix_rfl, stuff_take_marker hk, take_succ_marker (k := 0) hhead]
      simp
    · -- the match is broken for good: marker bytes and `b` are payload, with nothing pending
      rw [if_neg hhead]
      have hbroken : matched (marker.take k ++ [b]) = 0 := by
        rw [matched_concat, matched_take_marker (Nat.le_of_lt hk), advance, if_neg hnext,
          if_neg hhead]
      have hseam' : Seam payload (marker.take k ++ [b]) := hseam.append_right [b]
      have hpending : pending (payload ++ marker.take k ++ [b]) = 0 := by
        rw [List.append_assoc, pending, hseam'.matched_append (by simp), hbroken]
        rfl
      refine ⟨Nat.zero_le _, Or.inl hpending, ?_⟩
      rw [List.append_assoc payload, hseam'.stuff_append List.prefix_rfl, stuff_concat, hbroken,
        stuff_take_marker hk]
      simp [stuffByte]

theorem Explains.step {bytes : Bytes} {r : Reader} (h : Explains bytes r) (b : UInt8) :
    Explains (bytes ++ [b]) (r.step b) := by
  rcases r with seen | ⟨payload, k⟩ | payload | ⟨payload, e⟩
  · exact h.step_opening b
  · rcases Nat.lt_or_eq_of_le h.1 with hlt | rfl
    · exact h.step_payload hlt b
    · exact h.step_tag b
  · exact List.IsPrefix.trans h (List.prefix_append bytes [b])
  · rcases h with ⟨rfl, hlong, hshort⟩ | ⟨tag, he, hmid, hfinish, hpart⟩
    · refine Or.inl ⟨rfl, fun hpart => ?_, fun hpart => hshort ?_⟩
      · rcases List.prefix_or_prefix_of_prefix hpart (List.prefix_append bytes [b]) with h | h
        · exact hlong h
        · exact hshort h
      · exact (List.prefix_append bytes [b]).trans hpart
    · exact Or.inr ⟨tag, he, hmid, hfinish, hpart.trans (List.prefix_append bytes [b])⟩

/-- **Where a reader stands tells what it has read.** -/
theorem explains_run (bytes : Bytes) : Explains bytes (start.run bytes) := by
  induction bytes using List.reverseRecOn with
  | nil => exact explains_start
  | append_singleton bytes b ih =>
    rw [run_append]
    exact ih.step b

/-! ### What takes a reader to the end -/

theorem run_start_sequence : start.run Tag.start.sequence = .reading [] 0 := by decide

/-- A reader of a stuffed payload holds what is pending in it, and has confirmed the rest. -/
theorem run_stuff (payload : Bytes) :
    ∃ front, front ++ marker.take (pending payload) = payload ∧
      (reading [] 0).run (stuff payload) = .reading front (pending payload) := by
  induction payload using List.reverseRecOn with
  | nil => exact ⟨[], rfl, rfl⟩
  | append_singleton payload b ih =>
    obtain ⟨front, hfront, hrun⟩ := ih
    obtain ⟨front', hfront', hstep⟩ := Reader.step_reading front (pending_lt payload) b
    rw [hfront] at hfront'
    rw [advance_pending, ← matched_concat] at hfront' hstep
    rw [stuff_concat, run_append, hrun, stuffByte]
    by_cases hwhole : matched (payload ++ [b]) = marker.length
    · -- the byte completes a marker, and the tag behind it makes the marker payload
      rw [hwhole, List.take_length] at hfront'
      refine ⟨payload ++ [b], ?_, ?_⟩
      · rw [pending, if_pos hwhole]
        exact List.append_nil _
      · rw [if_pos hwhole, run_cons, hstep, hwhole, pending, if_pos hwhole, ← hfront']
        rfl
    · have hpending : pending (payload ++ [b]) = matched (payload ++ [b]) := if_neg hwhole
      refine ⟨front', by rw [hpending, hfront'], ?_⟩
      rw [if_neg hwhole, run_cons, hstep, hpending]
      rfl

theorem run_take_marker (payload : Bytes) {k n : Nat} (hk : k < marker.length)
    (hn : n < marker.length) :
    (reading payload k).run (marker.take (n + 1)) =
      .reading (payload ++ marker.take k) (n + 1) := by
  induction n with
  | zero =>
    have hfirst : marker[0]? = marker.head? := rfl
    rcases Nat.eq_zero_or_pos k with rfl | hpos
    · rw [List.take_zero, List.append_nil]
      rfl
    · have hnext : marker[k]? ≠ marker.head? := by
        have table : ∀ k < 10, 0 < k → marker[k]? ≠ marker.head? := by decide
        exact table k hk hpos
      have hbyte : marker.take 1 = [marker[0]] := rfl
      have hhead : marker.head? = some marker[0] := rfl
      rw [hbyte, run_cons, step, if_neg (Nat.ne_of_lt hk), if_neg (hhead ▸ hnext), if_pos hhead]
      rfl
  | succ n ih =>
    have hnext : marker[n + 1]? = some marker[n + 1] := List.getElem?_eq_getElem hn
    rw [take_succ_marker hnext, run_append, ih (Nat.lt_of_succ_lt hn), run_cons, step,
      if_neg (Nat.ne_of_lt hn), if_pos hnext]
    rfl

/-- A reader of a stuffed payload with a marker behind it waits for the tag. -/
theorem run_stuff_marker (payload : Bytes) :
    start.run (Tag.start.sequence ++ stuff payload ++ marker) = .reading payload marker.length := by
  obtain ⟨front, hfront, hrun⟩ := run_stuff payload
  have hmarker := run_take_marker front (pending_lt payload) (show 9 < marker.length by decide)
  rw [hfront] at hmarker
  have hwhole : marker.take (9 + 1) = marker := rfl
  rw [hwhole] at hmarker
  rw [run_append, run_append, run_start_sequence, hrun, hmarker]
  rfl

/-- **A reader of a frame comes to its payload.** -/
theorem run_frame (payload : Bytes) : start.run (frame payload) = .finished payload := by
  have hfinish : Tag.finish.sequence = marker ++ [Tag.finish.byte] := rfl
  rw [frame, hfinish, ← List.append_assoc, run_append, run_stuff_marker]
  rfl

/-- A reader that comes to a tag which may not stand there refuses it, behind the payload before its
    marker. -/
theorem run_bad_tag (payload : Bytes) {b : UInt8} (hmid : b ≠ Tag.mid.byte)
    (hfinish : b ≠ Tag.finish.byte) :
    start.run (Tag.start.sequence ++ stuff payload ++ marker ++ [b]) =
      .refused payload (.invalidTag b) := by
  rw [run_append, run_stuff_marker, run_cons, step, if_pos rfl]
  rcases htag : Tag.ofByte? b with _ | tag
  · rfl
  · have hb := Tag.eq_byte_of_ofByte? htag
    cases tag with
    | start => rfl
    | mid => exact absurd hb hmid
    | finish => exact absurd hb hfinish

/-- **Reading comes to a payload exactly if its frame was read**, whatever came behind. -/
theorem run_eq_finished_iff {bytes payload : Bytes} :
    start.run bytes = .finished payload ↔ frame payload <+: bytes := by
  constructor
  · intro h
    have := explains_run bytes
    rwa [h] at this
  · rintro ⟨rest, rfl⟩
    rw [run_append, run_frame, run_finished]

end Reader

/-! ### Decoding -/

theorem decodeChunks_eq_ok {chunks : List Bytes} {payload : Bytes} :
    decodeChunks chunks = .ok payload ↔ frame payload <+: chunks.flatten := by
  rw [decodeChunks_eq, ← Reader.run_eq_finished_iff]
  generalize Reader.start.run chunks.flatten = r
  rcases r with seen | ⟨payload', k⟩ | payload' | ⟨payload', e⟩ <;> simp [Reader.result]

/-- **A stream that is cut off inside its frame lacks its start or its end.** -/
theorem decodeChunks_truncated {chunks : List Bytes} {payload : Bytes}
    (h : chunks.flatten <+: frame payload) (hne : chunks.flatten ≠ frame payload) :
    decodeChunks chunks = .error .missingStart ∨ decodeChunks chunks = .error .missingEnd := by
  obtain ⟨rest, hrest⟩ := h
  have hwhole := Reader.run_frame payload
  rw [← hrest, Reader.run_append] at hwhole
  rw [decodeChunks_eq]
  rcases hr : Reader.start.run chunks.flatten with seen | ⟨payload', k⟩ | payload' | ⟨payload', e⟩
  · exact Or.inl rfl
  · exact Or.inr rfl
  · -- a payload that is complete before the cut has a frame as long as the whole
    rw [hr, Reader.run_finished] at hwhole
    obtain ⟨more, hmore⟩ := Reader.run_eq_finished_iff.1 (hr.trans hwhole)
    refine absurd ?_ hne
    rw [← hmore] at hrest ⊢
    have := congrArg List.length hrest
    simp only [List.length_append] at this
    rw [List.eq_nil_of_length_eq_zero (l := more) (by omega), List.append_nil]
  · rw [hr, Reader.run_refused] at hwhole
    cases hwhole

/-- **Decoding and encoding are inverse, whatever the chunks on either side**: a stream decodes to a
    payload exactly if it begins with what encoding the payload writes. -/
theorem decodeChunks_eq_ok_iff_encodeChunks_prefix (payloadChunks wireChunks : List Bytes) :
    decodeChunks wireChunks = .ok payloadChunks.flatten ↔
    encodeChunks payloadChunks <+: wireChunks.flatten := by
  rw [encodeChunks_eq_frame, decodeChunks_eq_ok]

end StreamRelay.Framing
