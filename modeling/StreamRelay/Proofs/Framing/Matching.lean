/-
  StreamRelay/Proofs/Framing/Matching.lean
  ========================================
  **What the byte-by-byte match of the marker computes.**

  `matched` folds a step function over a run and never looks back. Here it is shown to be what a
  reader wants to know: the length of the longest prefix of the marker that the run ends in
  (`take_matched_suffix`, `le_matched`). The reason is that no prefix of the marker ends in a
  shorter one (`eq_of_take_suffix_take`), so a broken match can only begin again at the marker's
  first byte.

  That also settles where a run may be cut without a marker across the cut: behind bytes that
  nothing is pending in, and in front of a byte that begins the marker (`Seam`).
-/
import Mathlib.Data.List.Induction
import StreamRelay.Framing.Marker

namespace StreamRelay.Framing

/-! ### The marker has no border -/

/-- No prefix of the marker ends in a shorter prefix of it. -/
theorem eq_of_take_suffix_take {j k : Nat} (hj : 0 < j) (hjk : j ≤ k) (hk : k ≤ marker.length)
    (h : marker.take j <:+ marker.take k) : j = k := by
  have table : ∀ k ≤ 10, ∀ j ≤ k, 0 < j → marker.take j <:+ marker.take k → j = k := by decide
  exact table k hk j hjk hj h

/-- Of the prefixes of the marker at most one, the empty one apart, stands at the end of a run. -/
theorem eq_of_take_suffix {bytes : Bytes} {j k : Nat} (hj : 0 < j) (hjk : j ≤ k)
    (hk : k ≤ marker.length)
    (h : marker.take j <:+ bytes) (h' : marker.take k <:+ bytes) : j = k := by
  apply eq_of_take_suffix_take hj hjk hk
  refine List.suffix_of_suffix_length_le h h' ?_
  rw [List.length_take, List.length_take]
  omega

theorem take_succ_marker {k : Nat} {b : UInt8} (h : marker[k]? = some b) :
    marker.take (k + 1) = marker.take k ++ [b] := by
  rw [List.take_add_one, h]
  rfl

/-! ### The step -/

theorem advance_head {b : UInt8} (h : marker.head? = some b) (k : Nat) : advance k b = 1 := by
  have again : ∀ k < 10, marker[k]? = marker.head? → k = 0 := by decide
  unfold advance
  by_cases hk : marker[k]? = some b
  · obtain ⟨hlt, _⟩ := List.getElem?_eq_some_iff.1 hk
    rw [if_pos hk, again k hlt (hk.trans h.symm)]
  · rw [if_neg hk, if_pos h]

theorem advance_length (b : UInt8) : advance marker.length b = advance 0 b := by
  by_cases h : marker.head? = some b
  · rw [advance_head h, advance_head h]
  · have none : marker[marker.length]? = none := rfl
    have first : marker[0]? = marker.head? := rfl
    simp only [advance, none, first, if_neg h, reduceCtorEq, if_false]

/-- What is matched after a step stands at the end of the run, if what was matched before did. -/
theorem take_advance_suffix {bytes : Bytes} {k : Nat} (h : marker.take k <:+ bytes) (b : UInt8) :
    marker.take (advance k b) <:+ bytes ++ [b] := by
  unfold advance
  split
  · next hk =>
    obtain ⟨front, rfl⟩ := h
    exact ⟨front, by rw [take_succ_marker hk, List.append_assoc]⟩
  · split
    · next hb =>
      have one : marker.take 1 = [b] := by
        rw [take_succ_marker (k := 0) hb]
        rfl
      exact ⟨bytes, by rw [one]⟩
    · exact List.nil_suffix

/-! ### Runs -/

/-- **What is matched stands at the end of the run.** -/
theorem take_matched_suffix (bytes : Bytes) : marker.take (matched bytes) <:+ bytes := by
  induction bytes using List.reverseRecOn with
  | nil => exact List.nil_suffix
  | append_singleton bytes b ih =>
    rw [matched_concat]
    exact take_advance_suffix ih b

/-- **No longer prefix of the marker stands at the end of the run.** -/
theorem le_matched {bytes : Bytes} {k : Nat} (hk : k ≤ marker.length)
    (h : marker.take k <:+ bytes) : k ≤ matched bytes := by
  -- a prefix that ends in `b` is one byte longer than a prefix that the run before it ends in
  induction bytes using List.reverseRecOn generalizing k with
  | nil =>
    have := h.length_le
    rw [List.length_take, Nat.min_eq_left hk] at this
    exact Nat.le_trans this (Nat.zero_le _)
  | append_singleton bytes b ih =>
    rcases k with _ | k
    · exact Nat.zero_le _
    · have hlast : marker[k]? = some b ∧ marker.take k <:+ bytes := by
        rw [List.take_add_one, List.getElem?_eq_getElem (show k < marker.length from hk)] at h
        obtain ⟨front, hfront⟩ := h
        rw [Option.toList_some, ← List.append_assoc] at hfront
        obtain ⟨hbytes, hb⟩ := List.append_inj' hfront rfl
        refine ⟨?_, front, hbytes⟩
        rw [List.getElem?_eq_getElem (show k < marker.length from hk)]
        exact congrArg some (List.singleton_inj.1 hb)
      obtain ⟨hb, hsuffix⟩ := hlast
      have hle : k ≤ matched bytes := ih (Nat.le_of_succ_le hk) hsuffix
      rw [matched_concat]
      rcases Nat.eq_zero_or_pos k with rfl | hpos
      · exact Nat.le_of_eq (advance_head hb _).symm
      · have : k = matched bytes :=
          eq_of_take_suffix hpos hle (matched_le bytes) hsuffix (take_matched_suffix bytes)
        refine Nat.le_of_eq ?_
        rw [← this, advance, if_pos hb]

theorem matched_eq_length_iff {bytes : Bytes} :
    matched bytes = marker.length ↔ marker <:+ bytes := by
  constructor
  · intro h
    have := take_matched_suffix bytes
    rwa [h, List.take_length] at this
  · intro h
    apply Nat.le_antisymm (matched_le bytes)
    apply le_matched (Nat.le_refl _)
    rwa [List.take_length]

/-- A prefix of the marker that stands at the end of a run is what is matched there. -/
theorem matched_append_take (bytes : Bytes) {k : Nat} (hpos : 0 < k) (hk : k ≤ marker.length) :
    matched (bytes ++ marker.take k) = k := by
  have hsuffix : marker.take k <:+ bytes ++ marker.take k := List.suffix_append _ _
  exact (eq_of_take_suffix hpos (le_matched hk hsuffix) (matched_le _) hsuffix
    (take_matched_suffix _)).symm

/-! ### Pending bytes -/

theorem take_pending_suffix (bytes : Bytes) : marker.take (pending bytes) <:+ bytes := by
  unfold pending
  split
  · exact List.nil_suffix
  · exact take_matched_suffix bytes

theorem drop_pending (bytes : Bytes) :
    bytes.drop (bytes.length - pending bytes) = marker.take (pending bytes) := by
  have := List.suffix_iff_eq_drop.1 (take_pending_suffix bytes)
  rw [List.length_take, Nat.min_eq_left (Nat.le_of_lt (pending_lt bytes))] at this
  exact this.symm

/-- One more byte takes the match on from the pending bytes: a whole marker counts as none. -/
theorem advance_pending (bytes : Bytes) (b : UInt8) :
    advance (pending bytes) b = advance (matched bytes) b := by
  unfold pending
  split
  · next h => rw [h, advance_length]
  · rfl

/-! ### Where a run may be cut -/

/-- **No marker begins before the cut and ends behind it**: nothing is pending before it, or the
    next byte begins the marker. -/
def Seam (before after : Bytes) : Prop := pending before = 0 ∨ after.head? = marker.head?

/-- Behind a seam the match goes on as if nothing stood before it. -/
theorem Seam.advance_eq {before rest : Bytes} {b : UInt8} (h : Seam before (b :: rest)) :
    advance (matched before) b = advance 0 b := by
  rcases h with h | h
  · rw [← advance_pending, h]
  · rw [advance_head h.symm, advance_head h.symm]

/-- What is matched at the end of a run does not depend on what stands before a seam in it. -/
theorem Seam.matched_append {before after : Bytes} (h : Seam before after) (hne : after ≠ []) :
    matched (before ++ after) = matched after := by
  rcases after with _ | ⟨b, rest⟩
  · exact absurd rfl hne
  · have hstep := h.advance_eq
    unfold matched at hstep ⊢
    rw [List.foldl_append, List.foldl_cons, hstep, List.foldl_cons]

theorem Seam.append_right {before after : Bytes} (h : Seam before after) (more : Bytes) :
    Seam before (after ++ more) := by
  rcases h with h | h
  · exact Or.inl h
  · rcases after with _ | ⟨b, rest⟩
    · cases h
    · exact Or.inr h

theorem seam_nil (after : Bytes) : Seam [] after := Or.inl rfl

/-- **Behind the bytes of a window that are not pending there is a seam**, also if more was taken
    before a seam in front of the window. -/
theorem Seam.take {before window : Bytes} (h : Seam before window) :
    Seam (before ++ window.take (window.length - pending window))
      (window.drop (window.length - pending window)) := by
  rw [drop_pending]
  rcases Nat.eq_zero_or_pos (pending window) with hnone | hsome
  · rw [hnone, Nat.sub_zero, List.take_length]
    rcases window with _ | ⟨b, rest⟩
    · rw [List.append_nil]
      exact h
    · refine Or.inl ?_
      unfold pending at hnone ⊢
      rw [h.matched_append (List.cons_ne_nil b rest)]
      exact hnone
  · refine Or.inr ?_
    rw [List.head?_take, if_neg (Nat.ne_of_gt hsome)]

end StreamRelay.Framing
