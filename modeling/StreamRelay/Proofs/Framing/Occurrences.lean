/-
  StreamRelay/Proofs/Framing/Occurrences.lean
  ===========================================
  **Where the marker stands on the wire.**

  A marker ends where the bytes up to there end in it, so occurrences are counted byte by byte at
  their ends (`length_occurrences_concat`). At a seam none crosses the cut (`Seam.occursAt_append`).
  Stuffing puts a tag behind each occurrence in the payload, and the tag breaks the match, so no new
  one comes about (`matched_stuff`).

  Main statement: a frame has one occurrence for its start, one for its finish and one for each in
  the payload, each with the tag of its kind behind it (`encodeChunks_markers`).
-/
import StreamRelay.Proofs.Framing.Stuffing

namespace StreamRelay.Framing

variable {bytes before after : Bytes} {b : UInt8} {i : Nat}

/-! ### Occurrences and what is matched -/

theorem OccursAt.length_le (h : OccursAt bytes i) : i + marker.length ≤ bytes.length := by
  have hlength := List.IsPrefix.length_le h
  have hpos : 0 < marker.length := by decide
  rw [List.length_drop] at hlength
  omega

/-- **The marker occurs where all of it is matched** ten bytes on. -/
theorem occursAt_iff :
    OccursAt bytes i ↔ i + marker.length ≤ bytes.length ∧
    matched (bytes.take (i + marker.length)) = marker.length := by
  have hends (hlength : i + marker.length ≤ bytes.length) :
      matched (bytes.take (i + marker.length)) = marker.length ↔ OccursAt bytes i := by
    rw [matched_eq_length_iff, List.suffix_iff_eq_drop, List.length_take, Nat.min_eq_left hlength,
      Nat.add_sub_cancel, List.drop_take, Nat.add_sub_cancel_left]
    exact List.prefix_iff_eq_take.symm
  constructor
  · intro h
    exact ⟨h.length_le, (hends h.length_le).2 h⟩
  · rintro ⟨hlength, hmatched⟩
    exact (hends hlength).1 hmatched

theorem OccursAt.append_right (h : OccursAt before i) (after : Bytes) :
    OccursAt (before ++ after) i :=
  List.IsPrefix.trans h (by rw [List.drop_append]; exact List.prefix_append _ _)

theorem OccursAt.of_take {k : Nat} (h : OccursAt (bytes.take k) i) : OccursAt bytes i := by
  have hwhole := h.append_right (bytes.drop k)
  rwa [List.take_append_drop] at hwhole

/-- An occurrence that ends in front of a cut does not depend on what is behind the cut. -/
theorem OccursAt.of_append (h : OccursAt (before ++ after) i)
    (hle : i + marker.length ≤ before.length) :
    OccursAt before i := by
  obtain ⟨_, hmatched⟩ := occursAt_iff.1 h
  rw [List.take_append_of_le_length hle] at hmatched
  exact occursAt_iff.2 ⟨hle, hmatched⟩

/-- **One more byte completes one occurrence at most**, and that one ends with it. -/
theorem occursAt_concat :
    OccursAt (bytes ++ [b]) i ↔
      OccursAt bytes i ∨ i + marker.length = bytes.length + 1 ∧
      matched (bytes ++ [b]) = marker.length := by
  have hlength : (bytes ++ [b]).length = bytes.length + 1 := by simp
  constructor
  · intro h
    obtain ⟨hle, hmatched⟩ := occursAt_iff.1 h
    rw [hlength] at hle
    rcases Nat.lt_or_eq_of_le hle with hshort | hwhole
    · left
      exact h.of_append (Nat.le_of_lt_succ hshort)
    · right
      rw [hwhole, ← hlength, List.take_length] at hmatched
      exact ⟨hwhole, hmatched⟩
  · rintro (h | ⟨hwhole, hmatched⟩)
    · exact h.append_right [b]
    · apply occursAt_iff.2
      rw [hwhole, ← hlength, List.take_length]
      exact ⟨Nat.le_refl _, hmatched⟩

/-- **No occurrence crosses a seam.** -/
theorem Seam.occursAt_append (h : Seam before after) :
    OccursAt (before ++ after) i ↔
      OccursAt before i ∨ ∃ j, i = before.length + j ∧ OccursAt after j := by
  constructor
  · intro hoccurs
    by_cases hle : i + marker.length ≤ before.length
    · exact Or.inl (hoccurs.of_append hle)
    · right
      obtain ⟨hlength, hmatched⟩ := occursAt_iff.1 hoccurs
      obtain ⟨n, hn⟩ := Nat.exists_eq_add_of_lt (Nat.lt_of_not_le hle)
      rw [List.length_append] at hlength
      rw [hn, Nat.add_assoc, List.take_length_add_append] at hmatched
      -- only what is behind a seam is matched there, so the marker begins behind it
      have hne : after.take (n + 1) ≠ [] := by
        apply List.ne_nil_of_length_pos
        rw [List.length_take]
        omega
      have hseam : Seam before (after.take (n + 1)) := by
        refine h.imp_right fun hhead => ?_
        rw [← hhead, List.head?_take, if_neg (Nat.succ_ne_zero n)]
      rw [hseam.matched_append hne] at hmatched
      have hbehind := (matched_eq_length_iff.1 hmatched).length_le
      rw [List.length_take] at hbehind
      refine ⟨i - before.length, by omega, occursAt_iff.2 ⟨by omega, ?_⟩⟩
      have hsame : i - before.length + marker.length = n + 1 := by omega
      rwa [hsame]
  · rintro (hoccurs | ⟨j, rfl, hoccurs⟩)
    · exact hoccurs.append_right after
    · unfold OccursAt
      rwa [List.drop_length_add_append]

/-! ### Counting -/

@[simp] theorem mem_occurrences : i ∈ occurrences bytes ↔ OccursAt bytes i := by
  have hpos : 0 < marker.length := by decide
  simp only [occurrences, List.mem_filter, List.mem_range, decide_eq_true_eq, and_iff_right_iff_imp]
  intro h
  have hlength := h.length_le
  omega

theorem nodup_occurrences (bytes : Bytes) : (occurrences bytes).Nodup := List.nodup_range.filter _

/-- **Every occurrence is counted at its end.** -/
theorem length_occurrences_concat (bytes : Bytes) (b : UInt8) :
    (occurrences (bytes ++ [b])).length =
      (occurrences bytes).length + if matched (bytes ++ [b]) = marker.length then 1 else 0 := by
  by_cases hmatched : matched (bytes ++ [b]) = marker.length
  · -- the one occurrence that is new is the one that ends with `b`
    have hlong := (matched_eq_length_iff.1 hmatched).length_le
    rw [List.length_append, List.length_singleton] at hlong
    obtain ⟨n, hn⟩ := Nat.exists_eq_add_of_le' hlong
    have hnew : n ∉ occurrences bytes := by
      rw [mem_occurrences]
      intro h
      have hlength := h.length_le
      omega
    have hperm : (occurrences (bytes ++ [b])).Perm (n :: occurrences bytes) := by
      have hnodup : (n :: occurrences bytes).Nodup :=
        List.nodup_cons.2 ⟨hnew, nodup_occurrences _⟩
      rw [List.perm_ext_iff_of_nodup (nodup_occurrences _) hnodup]
      intro i
      rw [List.mem_cons, mem_occurrences, mem_occurrences, occursAt_concat, hn,
        Nat.add_right_cancel_iff, and_iff_left hmatched, or_comm]
    rw [if_pos hmatched, hperm.length_eq, List.length_cons]
  · have hperm : (occurrences (bytes ++ [b])).Perm (occurrences bytes) := by
      rw [List.perm_ext_iff_of_nodup (nodup_occurrences _) (nodup_occurrences _)]
      intro i
      rw [mem_occurrences, mem_occurrences, occursAt_concat, or_iff_left]
      exact fun h => hmatched h.2
    rw [if_neg hmatched, hperm.length_eq, Nat.add_zero]

/-- **At a seam the occurrences of the whole are those of the parts.** -/
theorem Seam.occurrences_append (h : Seam before after) :
    occurrences (before ++ after) =
      occurrences before ++ (occurrences after).map (before.length + ·) := by
  unfold occurrences
  rw [List.length_append, List.range_add, List.filter_append, List.filter_map]
  -- offsets in front of the seam and offsets behind it are filtered apart
  congr 1
  · apply List.filter_congr
    intro offset hoffset
    rw [List.mem_range] at hoffset
    apply decide_eq_decide.2
    rw [h.occursAt_append]
    constructor
    · rintro (hoccurs | ⟨j, rfl, _⟩)
      · exact hoccurs
      · omega
    · exact Or.inl
  · congr 1
    apply List.filter_congr
    intro offset _
    apply decide_eq_decide.2
    rw [h.occursAt_append]
    constructor
    · rintro (hoccurs | ⟨j, hsame, hoccurs⟩)
      · have hlength : before.length + offset + marker.length ≤ before.length := hoccurs.length_le
        have hpos : 0 < marker.length := by decide
        omega
      · rwa [Nat.add_left_cancel hsame]
    · intro hoccurs
      exact Or.inr ⟨offset, rfl, hoccurs⟩

theorem Seam.length_occurrences_append (h : Seam before after) :
    (occurrences (before ++ after)).length = (occurrences before).length +
      (occurrences after).length := by
  rw [h.occurrences_append, List.length_append, List.length_map]

/-! ### Stuffed payloads -/

/-- The wire form of one more byte, with a tag behind it or without one. -/
theorem stuff_concat_cases (payload : Bytes) (b : UInt8) :
    matched (payload ++ [b]) = marker.length ∧
    stuff (payload ++ [b]) = stuff payload ++ [b] ++ [Tag.mid.byte] ∨
      matched (payload ++ [b]) ≠ marker.length ∧ stuff (payload ++ [b]) = stuff payload ++ [b] := by
  rw [stuff_concat, stuffByte]
  by_cases hwhole : matched (payload ++ [b]) = marker.length
  · left
    rw [if_pos hwhole, List.append_assoc]
    exact ⟨hwhole, rfl⟩
  · right
    rw [if_neg hwhole]
    exact ⟨hwhole, rfl⟩

/-- The wire form of a byte is matched as the byte is in the payload. -/
theorem matched_stuff_concat {payload : Bytes} (h : matched (stuff payload) = pending payload)
    (b : UInt8) :
    matched (stuff payload ++ [b]) = matched (payload ++ [b]) := by
  rw [matched_concat, h, advance_pending, matched_concat]

/-- **A stuffed payload ends in what is pending in the payload**: a tag behind a whole marker breaks
    the match. -/
theorem matched_stuff (payload : Bytes) : matched (stuff payload) = pending payload := by
  induction payload using List.reverseRecOn with
  | nil => rfl
  | append_singleton payload b ih =>
    have hbyte := matched_stuff_concat ih b
    rcases stuff_concat_cases payload b with ⟨hwhole, hstuff⟩ | ⟨hpart, hstuff⟩
    · rw [hstuff, matched_concat, hbyte, hwhole, pending, if_pos hwhole]
      rfl
    · rw [hstuff, hbyte, pending, if_neg hpart]

theorem matched_tag_ne (bytes : Bytes) : matched (bytes ++ [Tag.mid.byte]) ≠ marker.length := by
  have table : ∀ k ≤ 10, advance k Tag.mid.byte ≠ marker.length := by decide
  rw [matched_concat]
  exact table _ (matched_le bytes)

/-- **The marker occurs in a stuffed payload as often as in the payload.** -/
theorem length_occurrences_stuff (payload : Bytes) :
    (occurrences (stuff payload)).length = (occurrences payload).length := by
  induction payload using List.reverseRecOn with
  | nil => rfl
  | append_singleton payload b ih =>
    have hbyte := matched_stuff_concat (matched_stuff payload) b
    rw [length_occurrences_concat payload, ← hbyte, ← ih, ← length_occurrences_concat]
    rcases stuff_concat_cases payload b with ⟨_, hstuff⟩ | ⟨_, hstuff⟩
    · rw [hstuff, length_occurrences_concat _ Tag.mid.byte, if_neg (matched_tag_ne _), Nat.add_zero]
    · rw [hstuff]

/-- **A stuffed payload is longer by a byte for each occurrence.** -/
theorem length_stuff (payload : Bytes) :
    (stuff payload).length = payload.length + (occurrences payload).length := by
  induction payload using List.reverseRecOn with
  | nil => rfl
  | append_singleton payload b ih =>
    rw [length_occurrences_concat]
    rcases stuff_concat_cases payload b with ⟨hwhole, hstuff⟩ | ⟨hpart, hstuff⟩
    · rw [hstuff, if_pos hwhole]
      simp only [List.length_append, List.length_singleton, ih]
      omega
    · rw [hstuff, if_neg hpart]
      simp only [List.length_append, List.length_singleton, ih]
      omega

/-- **Behind every occurrence in a stuffed payload there is a mid tag.** -/
theorem mid_of_occursAt_stuff {payload : Bytes} (h : OccursAt (stuff payload) i) :
    (stuff payload)[i + marker.length]? = some Tag.mid.byte := by
  induction payload using List.reverseRecOn with
  | nil =>
    have hlength := h.length_le
    have hnone : (stuff []).length = 0 := rfl
    have hpos : 0 < marker.length := by decide
    omega
  | append_singleton payload b ih =>
    have hbyte := matched_stuff_concat (matched_stuff payload) b
    have hold (h : OccursAt (stuff payload) i) (more : Bytes) :
        (stuff payload ++ more)[i + marker.length]? = some Tag.mid.byte := by
      obtain ⟨hlt, _⟩ := List.getElem?_eq_some_iff.1 (ih h)
      rw [List.getElem?_append_left hlt]
      exact ih h
    rcases stuff_concat_cases payload b with ⟨_, hstuff⟩ | ⟨hpart, hstuff⟩
    · rw [hstuff] at h ⊢
      rcases occursAt_concat.1 h with h | ⟨_, hmatched⟩
      · rcases occursAt_concat.1 h with h | ⟨hend, _⟩
        · rw [List.append_assoc]
          exact hold h _
        · -- the new occurrence ends with `b`, and the tag is the byte behind it
          rw [hend, ← List.length_singleton (a := b), ← List.length_append,
            List.getElem?_append_right (Nat.le_refl _)]
          simp
      · exact absurd hmatched (matched_tag_ne _)
    · rw [hstuff] at h ⊢
      rcases occursAt_concat.1 h with h | ⟨_, hmatched⟩
      · exact hold h _
      · exact absurd (hbyte.symm.trans hmatched) hpart

/-! ### Frames -/

theorem seam_start (after : Bytes) : Seam Tag.start.sequence after := Or.inl rfl

theorem seam_finish (before : Bytes) : Seam before Tag.finish.sequence := Or.inr rfl

theorem occurrences_sequence (tag : Tag) : occurrences tag.sequence = [0] := by
  cases tag <;> decide

theorem occursAt_sequence {tag : Tag} : OccursAt tag.sequence i ↔ i = 0 := by
  rw [← mem_occurrences, occurrences_sequence, List.mem_singleton]

theorem length_occurrences_frame (payload : Bytes) :
    (occurrences (frame payload)).length = (occurrences payload).length + 2 := by
  rw [frame, (seam_finish _).length_occurrences_append, (seam_start _).length_occurrences_append,
    length_occurrences_stuff, occurrences_sequence, occurrences_sequence, List.length_singleton]
  omega

theorem length_frame (payload : Bytes) :
    (frame payload).length = payload.length + 22 + (occurrences payload).length := by
  have hlength (tag : Tag) : tag.sequence.length = 11 := Tag.length_sequence tag
  rw [frame, List.length_append, List.length_append, hlength, hlength, length_stuff]
  omega

/-- An occurrence in a frame is that of its start, one in the stuffed payload, or that of its
    finish. -/
theorem occursAt_frame {payload : Bytes} :
    OccursAt (frame payload) i ↔
      i = 0 ∨ (∃ j, i = 11 + j ∧ OccursAt (stuff payload) j) ∨ i = 11 + (stuff payload).length := by
  have hlength (tag : Tag) : tag.sequence.length = 11 := Tag.length_sequence tag
  rw [frame, (seam_finish _).occursAt_append, (seam_start _).occursAt_append, List.length_append,
    hlength, or_assoc]
  simp [occursAt_sequence]

/-- **Every marker on the wire stands in an escape**, overlapping ones included, however the payload
    was cut into chunks: the first is that of the start, the last is that of the finish and ends the
    stream, and any other has a mid tag behind it. There are two more of them than in the payload,
    and the stream is longer by two escapes and a tag for each that is in the payload. -/
theorem encodeChunks_markers (chunks : List Bytes) :
    (OccursAt (encodeChunks chunks) 0 ∧ (encodeChunks chunks)[10]? = some Tag.start.byte) ∧
      (OccursAt (encodeChunks chunks) ((encodeChunks chunks).length - 11) ∧
        (encodeChunks chunks)[(encodeChunks chunks).length - 11 + 10]? = some Tag.finish.byte ∧
        (encodeChunks chunks).length - 11 + 11 = (encodeChunks chunks).length) ∧
      (∀ offset, OccursAt (encodeChunks chunks) offset → offset ≠ 0 →
        offset ≠ (encodeChunks chunks).length - 11 →
        (encodeChunks chunks)[offset + 10]? = some Tag.mid.byte) ∧
      (occurrences (encodeChunks chunks)).length = (occurrences chunks.flatten).length + 2 ∧
      (encodeChunks chunks).length = chunks.flatten.length + 22 +
        (occurrences chunks.flatten).length := by
  rw [encodeChunks_eq_frame]
  generalize chunks.flatten = payload
  have hlength := length_frame payload
  have hfinish : (frame payload).length - 11 = 11 + (stuff payload).length := by
    rw [hlength, length_stuff]
    omega
  have hlast : (frame payload)[11 + (stuff payload).length + 10]? = some Tag.finish.byte := by
    have hfront : (Tag.start.sequence ++ stuff payload).length = 11 + (stuff payload).length :=
      List.length_append
    rw [frame, List.getElem?_append_right (by omega), hfront, Nat.add_sub_cancel_left]
    rfl
  refine ⟨⟨?_, rfl⟩, ⟨?_, ?_, by omega⟩, ?_, length_occurrences_frame payload, hlength⟩
  · exact occursAt_frame.2 (Or.inl rfl)
  · exact occursAt_frame.2 (Or.inr (Or.inr hfinish))
  · rw [hfinish]
    exact hlast
  · intro offset hoccurs hnotFirst hnotLast
    rw [hfinish] at hnotLast
    rcases occursAt_frame.1 hoccurs with hfirst | ⟨j, rfl, hstuffed⟩ | hlast
    · exact absurd hfirst hnotFirst
    · -- eleven bytes are in front of the stuffed payload, and the tag is within it
      have hmid := mid_of_occursAt_stuff hstuffed
      obtain ⟨hlt, _⟩ := List.getElem?_eq_some_iff.1 hmid
      have hfront : Tag.start.sequence.length = 11 := rfl
      have hmarker : marker.length = 10 := rfl
      rw [frame, List.append_assoc, List.getElem?_append_right (by omega),
        List.getElem?_append_left (by omega)]
      rw [hfront, Nat.add_assoc, Nat.add_sub_cancel_left]
      exact hmid
    · exact absurd hlast hnotLast

end StreamRelay.Framing
