/-
  StreamRelay/Proofs/Framing/Incremental.lean
  ===========================================
  **What a decoder has said of a stream, at any point between two calls.**

  A caller shows the decoder a window, takes the payload off its front, and shows the rest again in
  front of new bytes (`Calls`). Windows mix bytes that were shown before, some of them already rid
  of their escapes, with new ones, and how they are cut is up to the caller. It makes no difference:
  the decoder stands where a reader stands that has read the bytes once (`Calls.eq_run`), and such a
  reader knows what it has read.

  Main statement: at every call, what was released so far is the payload of all bytes shown so far,
  up to the longest part of a marker at their end or up to the first finish escape
  (`Calls.decode_settles`).
-/
import StreamRelay.Proofs.Framing.Canonical
import StreamRelay.Proofs.Framing.Occurrences

namespace StreamRelay.Framing

variable {fed safe left chunk : Bytes} {decoder decoder' : Decoder} {decoded : Decoded}

/-! ### Removing the tags from the wire -/

/-- The rest of a stuffed payload without the byte behind every marker, given the wire before it. -/
def unstuffAfter (before : Bytes) : Bytes → Bytes
  | [] => []
  | b :: rest =>
    if marker <:+ before then unstuffAfter (before ++ [b]) rest
    else b :: unstuffAfter (before ++ [b]) rest

/-- The payload that a wire without its start and finish stands for: all bytes but those right
    behind a marker. -/
def unstuff (wire : Bytes) : Bytes := unstuffAfter [] wire

theorem unstuffAfter_concat (before wire : Bytes) (b : UInt8) :
    unstuffAfter before (wire ++ [b]) =
      unstuffAfter before wire ++ if marker <:+ before ++ wire then [] else [b] := by
  induction wire generalizing before with
  | nil => simp [unstuffAfter]
  | cons c rest ih =>
    simp only [List.cons_append, unstuffAfter, ih, List.append_assoc, List.nil_append]
    split <;> rfl

/-- **The payload is what stuffing it leaves when the tags are removed.** -/
theorem unstuff_stuff (payload : Bytes) : unstuff (stuff payload) = payload := by
  induction payload using List.reverseRecOn with
  | nil => rfl
  | append_singleton payload b ih =>
    have hbefore : ¬ marker <:+ stuff payload := by
      intro h
      have hwhole := matched_eq_length_iff.2 h
      rw [matched_stuff] at hwhole
      exact Nat.ne_of_lt (pending_lt payload) hwhole
    have hbyte : unstuff (stuff payload ++ [b]) = payload ++ [b] := by
      rw [unstuff, unstuffAfter_concat, List.nil_append, if_neg hbefore]
      exact congrArg (· ++ [b]) ih
    rcases stuff_concat_cases payload b with ⟨hwhole, hstuff⟩ | ⟨-, hstuff⟩
    · -- the tag stands behind the marker that `b` completes
      have hmarker : marker <:+ stuff payload ++ [b] := by
        apply matched_eq_length_iff.1
        rw [matched_stuff_concat (matched_stuff payload), hwhole]
      rw [hstuff, unstuff, unstuffAfter_concat, List.nil_append, if_pos hmarker, List.append_nil]
      exact hbyte
    · rw [hstuff]
      exact hbyte

/-! ### Calls -/

/-- The decoder was called on windows that each began with what the window before left over. `fed`
    is all new bytes in order, `safe` all that was released, and `left` is what the last call left
    over. -/
inductive Calls : (fed safe left : Bytes) → Decoder → Prop
  | none : Calls [] [] [] .notStarted
  | call {fed safe left chunk : Bytes} {decoder decoder' : Decoder} {decoded : Decoded}
      (before : Calls fed safe left decoder)
      (hcall : decoder.decode (left ++ chunk) false = (decoder', .ok decoded)) :
      Calls (fed ++ chunk) (safe ++ decoded.window.take decoded.safe)
        (decoded.window.drop decoded.safe) decoder'

namespace Calls

/-- **The decoder stands where a reader stands that has read the same bytes.** -/
theorem eq_run (h : Calls fed safe left decoder) :
    (Reader.start.run fed).Live ∧ decoder = (Reader.start.run fed).decoder ∧
    left = (Reader.start.run fed).held ∧
      safe = (Reader.start.run fed).confirmed := by
  induction h with
  | none => exact ⟨Reader.live_start, rfl, rfl, rfl⟩
  | @call fed safe left chunk decoder decoder' decoded _ hcall ih =>
    obtain ⟨hlive, rfl, rfl, rfl⟩ := ih
    have hsays := Reader.says_decode hlive chunk false
    rw [hcall, ← Reader.run_append] at hsays
    obtain ⟨hlive', hdecoder, -, fresh, hconfirmed, rfl⟩ := hsays
    refine ⟨hlive', hdecoder, ?_, ?_⟩
    · simp
    · simp [hconfirmed]

/-- Calls come as far as a reader that met no fault: one on all the bytes does. -/
theorem of_live (hlive : (Reader.start.run fed).Live) :
    Calls fed (Reader.start.run fed).confirmed (Reader.start.run fed).held
      (Reader.start.run fed).decoder := by
  have hsays := Reader.says_decode Reader.live_start fed false
  rcases hcall : Reader.start.decoder.decode (Reader.start.held ++ fed) false with
    ⟨decoder, e | decoded⟩
  · rw [hcall] at hsays
    obtain ⟨payload, hrefused⟩ := hsays.2 rfl
    rw [hrefused] at hlive
    exact hlive.elim
  · have hcalls := Calls.none.call hcall
    rw [hcall] at hsays
    obtain ⟨-, rfl, -, fresh, hconfirmed, rfl⟩ := hsays
    have hfresh : (Reader.start.run fed).confirmed = fresh := hconfirmed
    rw [hfresh]
    simpa using hcalls

/-- Where the calls stand depends on the bytes that were fed, and on nothing else. -/
theorem unique {safe' left' : Bytes} (h : Calls fed safe left decoder)
    (h' : Calls fed safe' left' decoder') :
    safe' = safe ∧ left' = left ∧ decoder' = decoder := by
  obtain ⟨-, hdecoder, hleft, hsafe⟩ := h.eq_run
  obtain ⟨-, hdecoder', hleft', hsafe'⟩ := h'.eq_run
  simp only [hdecoder, hleft, hsafe, hdecoder', hleft', hsafe', and_self]

/-- A call that is answered releases bytes of its window, and keeps ten at most. -/
theorem decode_bounds (h : Calls fed safe left decoder)
    (hcall : decoder.decode (left ++ chunk) false = (decoder', .ok decoded)) :
    decoded.safe ≤ decoded.window.length ∧ decoded.window.length ≤ (left ++ chunk).length ∧
      decoded.window.length - decoded.safe ≤ marker.length := by
  obtain ⟨hlive, rfl, rfl, -⟩ := h.eq_run
  have hsays := Reader.says_decode hlive chunk false
  have hlength := (Reader.start.run fed).length_run_le chunk
  rw [hcall] at hsays
  obtain ⟨hlive', -, -, fresh, hconfirmed, rfl⟩ := hsays
  have hheld := Reader.length_held_le hlive'
  simp only [hconfirmed, List.length_append] at hlength ⊢
  omega

end Calls

/-! ### What was released, and what is left -/

def Decoder.stage : Decoder → Nat
  | .notStarted => 0
  | .started => 1
  | .ended => 2

/-- What a decoder may have released of the bytes it was fed, and what it must have kept. Before the
    start escape is complete it is nothing and all. In the payload it keeps the longest part of a
    marker that the bytes end in, and what is before is released. Past the finish escape nothing is
    kept, and the first of them is where the payload ends. -/
def Settles (fed safe left : Bytes) : Decoder → Prop
  | .notStarted => left = fed ∧ safe = [] ∧ fed <+: Tag.start.sequence ∧ fed ≠ Tag.start.sequence
  | .started =>
    ∃ wire, fed = Tag.start.sequence ++ wire ++ left ∧ safe = unstuff wire ∧ left <+: marker ∧
      ∀ longer, longer <+: marker → longer <:+ wire ++ left → longer.length ≤ left.length
  | .ended =>
    ∃ wire rest, fed = Tag.start.sequence ++ wire ++ Tag.finish.sequence ++ rest ∧
      safe = unstuff wire ∧ left = [] ∧
      ∀ i < wire.length, ¬ Tag.finish.sequence <+: (wire ++ Tag.finish.sequence ++ rest).drop i

/-- At a seam a stuffed payload with part of a marker behind it ends in no longer part of one. -/
theorem Seam.matched_stuff_append {payload : Bytes} {k : Nat} (h : Seam payload (marker.take k))
    (hk : k ≤ marker.length) : matched (stuff payload ++ marker.take k) = k := by
  rcases Nat.eq_zero_or_pos k with rfl | hpos
  · have hpending : pending payload = 0 := by
      rcases h with h | h
      · exact h
      · cases h
    simp [matched_stuff, hpending]
  · exact matched_append_take _ hpos hk

/-- **No finish escape stands in a stuffed payload**, nor does one begin in it and end in the finish
    escape behind it. -/
theorem finish_not_in_stuff (payload rest : Bytes) {i : Nat} (hi : i < (stuff payload).length) :
    ¬ Tag.finish.sequence <+: (stuff payload ++ Tag.finish.sequence ++ rest).drop i := by
  intro hfinish
  have hmarker : marker <+: Tag.finish.sequence := List.prefix_append _ _
  have hoccurs : OccursAt (stuff payload ++ (Tag.finish.sequence ++ rest)) i := by
    rw [← List.append_assoc]
    exact hmarker.trans hfinish
  have hseam : Seam (stuff payload) (Tag.finish.sequence ++ rest) :=
    (seam_finish _).append_right rest
  rcases hseam.occursAt_append.1 hoccurs with hstuff | ⟨j, hj, -⟩
  · have hmid := mid_of_occursAt_stuff hstuff
    obtain ⟨hlt, -⟩ := List.getElem?_eq_some_iff.1 hmid
    obtain ⟨more, hmore⟩ := hfinish
    -- the byte behind the marker is the tag of both escapes
    have hbyte : ((stuff payload ++ Tag.finish.sequence ++ rest).drop i)[10]? =
        some Tag.finish.byte := by
      rw [← hmore]
      rfl
    have hfront : (stuff payload ++ (Tag.finish.sequence ++ rest))[i + 10]? =
        (stuff payload)[i + 10]? :=
      List.getElem?_append_left hlt
    rw [List.getElem?_drop, List.append_assoc, hfront] at hbyte
    have hsame : some Tag.mid.byte = some Tag.finish.byte := hmid.symm.trans hbyte
    exact absurd hsame (by decide)
  · omega

/-- **A reader that met no fault has settled what it read.** -/
theorem settles_run (hlive : (Reader.start.run fed).Live) :
    Settles fed (Reader.start.run fed).confirmed (Reader.start.run fed).held
      (Reader.start.run fed).decoder := by
  have hexplains := Reader.explains_run fed
  generalize Reader.start.run fed = r at hlive hexplains
  cases r with
  | opening seen =>
    -- the start escape is not complete, so its prefix is not all of it
    obtain ⟨hseen, rfl⟩ := hexplains
    refine ⟨rfl, rfl, List.take_prefix _ _, ?_⟩
    intro h
    have hlength := congrArg List.length h
    rw [List.length_take, Reader.length_start] at hlength
    omega
  | reading payload k =>
    -- what is held is the longest part of a marker that the wire ends in
    obtain ⟨hk, hseam, rfl⟩ := hexplains
    refine ⟨stuff payload, rfl, (unstuff_stuff payload).symm, List.take_prefix _ _, ?_⟩
    intro longer hpart hend
    have hle : longer.length ≤ marker.length := hpart.length_le
    rw [List.prefix_iff_eq_take.1 hpart] at hend
    have hmatched : longer.length ≤ matched (stuff payload ++ marker.take k) := le_matched hle hend
    rw [hseam.matched_stuff_append hk] at hmatched
    rw [Reader.held, List.length_take]
    omega
  | finished payload =>
    obtain ⟨rest, rfl⟩ := hexplains
    exact ⟨stuff payload, rest, rfl, (unstuff_stuff payload).symm, rfl,
      fun _ => finish_not_in_stuff payload rest⟩
  | refused payload e => exact hlive.elim

theorem Reader.stage_step_le (r : Reader) (b : UInt8) :
    r.decoder.stage ≤ (r.step b).decoder.stage := by
  cases r with
  | opening seen => exact Nat.zero_le _
  | reading payload k =>
    simp only [Reader.step]
    split
    · split <;> simp [Reader.decoder, Decoder.stage]
    · split
      · exact Nat.le_refl _
      · split <;> exact Nat.le_refl _
  | finished payload => exact Nat.le_refl _
  | refused payload e => exact Nat.le_refl _

theorem Reader.stage_run_le (r : Reader) (bytes : Bytes) :
    r.decoder.stage ≤ (r.run bytes).decoder.stage := by
  induction bytes generalizing r with
  | nil => exact Nat.le_refl _
  | cons b rest ih => exact Nat.le_trans (r.stage_step_le b) (ih (r.step b))

/-- **What the decoder says at any call.** After any calls that were answered, let one more be
    answered. It counts what it releases and what it keeps within the window, and keeps ten bytes at
    most. What all calls released together and what is left is settled by the bytes they were fed,
    and would be the same had these come in other pieces. The decoder is not at an earlier stage
    than before; and once it has ended it answers any window, be it the last or not, with nothing.
    -/
theorem Calls.decode_settles (h : Calls fed safe left decoder)
    (hcall : decoder.decode (left ++ chunk) false = (decoder', .ok decoded)) :
    (decoded.safe ≤ decoded.window.length ∧ decoded.window.length ≤ (left ++ chunk).length ∧
        decoded.window.length - decoded.safe ≤ 10) ∧
      Settles (fed ++ chunk) (safe ++ decoded.window.take decoded.safe)
        (decoded.window.drop decoded.safe) decoder' ∧
      (∀ safe' left' other, Calls (fed ++ chunk) safe' left' other →
        safe' = safe ++ decoded.window.take decoded.safe ∧
        left' = decoded.window.drop decoded.safe ∧ other = decoder') ∧
      decoder.stage ≤ decoder'.stage ∧
      (decoder' = .ended → ∀ window last, decoder'.decode window last = (.ended, .ok ⟨[], 0⟩)) := by
  have hafter := Calls.call h hcall
  refine ⟨h.decode_bounds hcall, ?_, fun _ _ _ => hafter.unique, ?_, ?_⟩
  · obtain ⟨hlive, hdecoder, hleft, hsafe⟩ := hafter.eq_run
    rw [hdecoder, hleft, hsafe]
    exact settles_run hlive
  · obtain ⟨-, hbefore, -⟩ := h.eq_run
    obtain ⟨-, hdecoder, -⟩ := hafter.eq_run
    rw [hbefore, hdecoder, Reader.run_append]
    exact Reader.stage_run_le _ chunk
  · rintro rfl window last
    rfl

/-- A marker across two calls, its tag in the second, and the beginning of the next marker behind
    it. -/
theorem decode_settles_across_calls :
    Settles
      (Tag.start.sequence ++ [0x61] ++ marker.take 4 ++
        (marker.drop 4 ++ [Tag.mid.byte, 0x62] ++ marker.take 2))
      ([0x61] ++ marker ++ [0x62]) (marker.take 2) .started := by
  have hopening : Decoder.decode .notStarted
      ([] ++ (Tag.start.sequence ++ [0x61] ++ marker.take 4)) false =
      (.started, .ok ⟨[0x61] ++ marker.take 4, 1⟩) := rfl
  have hfirst : Calls (Tag.start.sequence ++ [0x61] ++ marker.take 4) [0x61]
      (marker.take 4) .started :=
    Calls.none.call hopening
  have hcall : Decoder.decode .started
      (marker.take 4 ++ (marker.drop 4 ++ [Tag.mid.byte, 0x62] ++ marker.take 2)) false =
      (.started, .ok ⟨marker ++ [0x62] ++ marker.take 2, 11⟩) := rfl
  exact (hfirst.decode_settles hcall).2.1

end StreamRelay.Framing
