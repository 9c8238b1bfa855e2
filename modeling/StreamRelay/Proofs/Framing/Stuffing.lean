/-
  StreamRelay/Proofs/Framing/Stuffing.lean
  ========================================
  **The encoder writes the framed form of its payload.**

  `stuff` puts a tag behind every occurrence of the marker by looking back at the whole payload. The
  encoder only keeps a number of matched bytes and starts anew with each window. The two agree
  because windows are only ever cut at seams, where `stuff` of the whole is `stuff` of the parts
  (`stuff_append`).

  Main statement: however a payload is cut into chunks, what is written is its frame
  (`encodeChunks_eq_frame`).
-/
import StreamRelay.Framing.Encoder
import StreamRelay.Framing.Wire
import StreamRelay.Proofs.Framing.Matching

namespace StreamRelay.Framing

/-! ### Stuffing by what is matched -/

def stuffByte (k : Nat) (b : UInt8) : Bytes := if k = marker.length then [b, Tag.mid.byte] else [b]

theorem stuffAfter_cons (before : Bytes) (b : UInt8) (rest : Bytes) :
    stuffAfter before (b :: rest) = stuffByte (advance (matched before) b) b ++
      stuffAfter (before ++ [b]) rest := by
  unfold stuffByte
  rw [stuffAfter, ← matched_concat]
  by_cases h : marker <:+ before ++ [b]
  · rw [if_pos h, if_pos (matched_eq_length_iff.2 h)]
    rfl
  · rw [if_neg h, if_neg (fun hk => h (matched_eq_length_iff.1 hk))]
    rfl

theorem stuffAfter_append (before first second : Bytes) :
    stuffAfter before (first ++ second) = stuffAfter before first ++
      stuffAfter (before ++ first) second := by
  induction first generalizing before with
  | nil => rw [List.append_nil]; rfl
  | cons b rest ih =>
    rw [List.cons_append, stuffAfter_cons, stuffAfter_cons, ih, List.append_assoc,
      List.append_assoc, List.singleton_append]

/-- Only what is matched at the end of the payload before it decides how a payload is stuffed. -/
theorem stuffAfter_congr {before before' : Bytes} (h : matched before = matched before')
    (payload : Bytes) :
    stuffAfter before payload = stuffAfter before' payload := by
  induction payload generalizing before before' with
  | nil => rfl
  | cons b rest ih =>
    rw [stuffAfter_cons, stuffAfter_cons, h]
    congr 1
    apply ih
    rw [matched_concat, matched_concat, h]

/-- Behind a seam a payload is stuffed as if nothing stood before it. -/
theorem Seam.stuffAfter_eq {before after : Bytes} (h : Seam before after) :
    stuffAfter before after = stuff after := by
  rcases after with _ | ⟨b, rest⟩
  · rfl
  · unfold stuff
    have hstep : advance (matched before) b = advance (matched []) b := h.advance_eq
    rw [stuffAfter_cons, stuffAfter_cons, hstep]
    congr 1
    apply stuffAfter_congr
    rw [matched_concat, matched_concat, hstep]

/-- **At a seam a payload is stuffed part by part**, also if not all that is known to follow the
    seam is stuffed yet. -/
theorem Seam.stuff_append {before after part : Bytes} (h : Seam before after)
    (hpart : part <+: after) :
    stuff (before ++ part) = stuff before ++ stuff part := by
  have hafter : stuffAfter before part = stuff part := by
    rcases part with _ | ⟨b, rest⟩
    · rfl
    · refine Seam.stuffAfter_eq (h.imp_right fun hhead => ?_)
      obtain ⟨more, rfl⟩ := hpart
      exact hhead
  rw [← hafter]
  exact stuffAfter_append [] before part

theorem stuff_concat (payload : Bytes) (b : UInt8) :
    stuff (payload ++ [b]) = stuff payload ++ stuffByte (matched (payload ++ [b])) b := by
  unfold stuff
  rw [stuffAfter_append, stuffAfter_cons, ← matched_concat, List.nil_append]
  exact congrArg _ (List.append_nil _)

theorem stuff_prefix {payload whole : Bytes} (h : payload <+: whole) :
    stuff payload <+: stuff whole := by
  obtain ⟨rest, rfl⟩ := h
  exact ⟨stuffAfter payload rest, (stuffAfter_append [] payload rest).symm⟩

/-- A part of the marker is no occurrence of it and stays as it is. -/
theorem stuff_take_marker {k : Nat} (h : k < marker.length) :
    stuff (marker.take k) = marker.take k := by
  have table : ∀ k < 10, stuff (marker.take k) = marker.take k := by decide
  exact table k h

/-! ### One window -/

theorem foldl_push (window : Bytes) :
    window.foldl Stuffing.push .empty = ⟨(stuff window).toArray, matched window⟩ := by
  induction window using List.reverseRecOn with
  | nil => rfl
  | append_singleton window b ih =>
    rw [List.foldl_append, ih, stuff_concat, matched_concat]
    simp only [List.foldl_cons, List.foldl_nil, Stuffing.push, stuffByte]
    split <;> simp

def taken (window : Bytes) (last : Bool) : Nat := window.length - if last then 0 else pending window

theorem taken_le (window : Bytes) (last : Bool) : taken window last ≤ window.length :=
  Nat.sub_le _ _

/-- **A window is encoded by stuffing the part of it that is taken.** -/
theorem encode_eq (window : Bytes) (last : Bool) :
    encode window last = ⟨stuff (window.take (taken window last)), taken window last⟩ := by
  have hpending : (Stuffing.mk (stuff window).toArray (matched window)).pending = pending window :=
    rfl
  unfold encode taken
  simp only [foldl_push, hpending]
  rcases last with _ | _
  · -- the pending bytes stand behind a seam and are no marker: as many bytes are left out
    have hseam := (seam_nil window).take
    rw [List.nil_append] at hseam
    have hsplit : stuff window =
        stuff (window.take (window.length - pending window)) ++ marker.take (pending window) := by
      rw [← stuff_take_marker (pending_lt window), ← drop_pending,
        ← hseam.stuff_append List.prefix_rfl, List.take_append_drop]
    have hlength : (marker.take (pending window)).length = pending window := by
      rw [List.length_take, Nat.min_eq_left (Nat.le_of_lt (pending_lt window))]
    simp only [Bool.false_eq_true, if_false, Encoded.mk.injEq, and_true]
    rw [hsplit]
    simp [List.extract_eq_take_drop, hlength]
  · simp

/-- **Behind what an encoder took of a window there is a seam**, if there was one in front of the
    window. -/
theorem Seam.taken {before window : Bytes} (h : Seam before window) :
    Seam (before ++ window.take (taken window false)) (window.drop (taken window false)) := h.take

/-! ### A whole payload -/

/-- What was written stands for a part of the payload that ends at a seam; the rest is withheld. -/
theorem encodeOpen_eq (chunks : List Bytes) :
    ∃ done, done ++ (encodeOpen chunks).2 = chunks.flatten ∧
      (encodeOpen chunks).1.toList = stuff done ∧
      Seam done (encodeOpen chunks).2 := by
  induction chunks using List.reverseRecOn with
  | nil => exact ⟨[], rfl, rfl, seam_nil []⟩
  | append_singleton chunks chunk ih =>
    obtain ⟨done, hflatten, hout, hseam⟩ := ih
    have hstep : encodeOpen (chunks ++ [chunk]) =
        ((encodeOpen chunks).1 ++ (encode ((encodeOpen chunks).2 ++ chunk) false).out,
          ((encodeOpen chunks).2 ++ chunk).drop
          (encode ((encodeOpen chunks).2 ++ chunk) false).used) := by
      unfold encodeOpen
      rw [List.foldl_append]
      rfl
    have hwindow := hseam.append_right chunk
    rw [hstep, encode_eq]
    generalize hw : (encodeOpen chunks).2 ++ chunk = window at hwindow ⊢
    refine ⟨done ++ window.take (taken window false), ?_, ?_, hwindow.taken⟩
    · rw [List.append_assoc, List.take_append_drop, ← hw, ← List.append_assoc, hflatten,
        List.flatten_append, List.flatten_singleton]
    · rw [hwindow.stuff_append (List.take_prefix _ _), ← hout]
      exact Array.toList_appendList

/-- **However a payload is cut into chunks, its framed form is written.** -/
theorem encodeChunks_eq_frame (chunks : List Bytes) :
    encodeChunks chunks = frame chunks.flatten := by
  obtain ⟨done, hflatten, hout, hseam⟩ := encodeOpen_eq chunks
  have hbody : (encodeOpen chunks).1.toList ++ (encode (encodeOpen chunks).2 true).out =
      stuff chunks.flatten := by
    rw [← hflatten, hseam.stuff_append List.prefix_rfl, hout, encode_eq]
    simp [taken]
  unfold frame
  rw [← hbody, ← List.append_assoc]
  rfl

end StreamRelay.Framing
