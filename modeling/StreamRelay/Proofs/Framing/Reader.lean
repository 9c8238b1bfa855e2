/-
  StreamRelay/Proofs/Framing/Reader.lean
  ======================================
  **A reader of framed streams that takes one byte at a time.**

  The decoder works on windows: it scans what it held back once more, in front of the new bytes, and
  what it says of a window depends on where the window was cut. A `Reader` has nothing to hold back,
  since the bytes that it cannot vouch for are known from how many there are: they are a prefix of
  the start escape, or of the marker.

  Main statements: on what a reader holds and a chunk, the decoder does what the reader does byte by
  byte (`decode_spec`); so a stream decodes as its bytes are read, however it is cut
  (`decodeChunks_eq`).
-/
import StreamRelay.Framing.Decoder
import StreamRelay.Proofs.Framing.Matching

namespace StreamRelay.Framing

theorem Tag.eq_byte_of_ofByte? {b : UInt8} {tag : Tag} (h : Tag.ofByte? b = some tag) :
    b = tag.byte := by
  unfold Tag.ofByte? at h
  split at h
  · next hb => cases h; exact hb
  · split at h
    · next hb => cases h; exact hb
    · split at h
      · next hb => cases h; exact hb
      · cases h

/-- Where a reader stands: so many bytes into the start escape; behind some payload and so many
    marker bytes; past the finish escape; or at a fault, behind the payload before it. -/
inductive Reader where
  | opening (seen : Nat)
  | reading (payload : Bytes) (matched : Nat)
  | finished (payload : Bytes)
  | refused (payload : Bytes) (e : FramingError)
deriving DecidableEq, Repr

namespace Reader

def start : Reader := .opening 0

/-- Read one byte. Marker bytes that turn out not to be a marker are payload; so is a marker with a
    mid tag. -/
def step : Reader → UInt8 → Reader
  | .opening seen, b =>
    if Tag.start.sequence[seen]? = some b then
      if seen + 1 = escapeLength then .reading [] 0 else .opening (seen + 1)
    else .refused [] .missingStart
  | .reading payload k, b =>
    if k = marker.length then
      match Tag.ofByte? b with
      | some .mid => .reading (payload ++ marker) 0
      | some .finish => .finished payload
      | _ => .refused payload (.invalidTag b)
    else if marker[k]? = some b then .reading payload (k + 1)
    else if marker.head? = some b then .reading (payload ++ marker.take k) 1
    else .reading (payload ++ marker.take k ++ [b]) 0
  | .finished payload, _ => .finished payload
  | .refused payload e, _ => .refused payload e

def run (r : Reader) (bytes : Bytes) : Reader := bytes.foldl step r

@[simp] theorem run_nil (r : Reader) : r.run [] = r := rfl

@[simp] theorem run_cons (r : Reader) (b : UInt8) (rest : Bytes) :
    r.run (b :: rest) = (r.step b).run rest := rfl

theorem run_append (r : Reader) (first second : Bytes) :
    r.run (first ++ second) = (r.run first).run second :=
  List.foldl_append

@[simp] theorem run_finished (payload bytes : Bytes) :
    (finished payload).run bytes = .finished payload := by
  induction bytes with
  | nil => rfl
  | cons b rest ih => exact ih

@[simp] theorem run_refused (payload : Bytes) (e : FramingError) (bytes : Bytes) :
    (refused payload e).run bytes = .refused payload e := by
  induction bytes with
  | nil => rfl
  | cons b rest ih => exact ih

def result : Reader → Except FramingError Bytes
  | .opening _ => .error .missingStart
  | .reading _ _ => .error .missingEnd
  | .finished payload => .ok payload
  | .refused _ e => .error e

/-- The payload that no further byte can change. -/
def confirmed : Reader → Bytes
  | .opening _ => []
  | .reading payload _ => payload
  | .finished payload => payload
  | .refused payload _ => payload

/-- The bytes that cannot be told yet. -/
def held : Reader → Bytes
  | .opening seen => Tag.start.sequence.take seen
  | .reading _ k => marker.take k
  | .finished _ => []
  | .refused _ _ => []

def decoder : Reader → Decoder
  | .opening _ => .notStarted
  | .reading _ _ => .started
  | .finished _ => .ended
  | .refused _ _ => .ended

/-- No fault was met, and what is held is part of an escape. -/
def Live : Reader → Prop
  | .opening seen => seen < escapeLength
  | .reading _ k => k ≤ marker.length
  | .finished _ => True
  | .refused _ _ => False

theorem live_start : start.Live := Nat.zero_lt_succ _

/-- A marker at the end of what was read makes at most ten bytes held. -/
theorem length_held_le {r : Reader} (h : r.Live) : r.held.length ≤ marker.length := by
  rcases r with seen | ⟨payload, k⟩ | payload | ⟨payload, e⟩
  · have : seen < marker.length + 1 := h
    rw [held, List.length_take]
    omega
  · rw [held, List.length_take]
    exact Nat.min_le_right _ _
  · exact Nat.zero_le _
  · exact Nat.zero_le _

theorem length_step_le (r : Reader) (b : UInt8) :
    (r.step b).confirmed.length + (r.step b).held.length ≤ r.confirmed.length +
      r.held.length + 1 := by
  rcases r with seen | ⟨payload, k⟩ | payload | ⟨payload, e⟩
  · simp only [step]
    split
    · split <;> simp [confirmed, held]; omega
    · simp [confirmed, held]
  · by_cases hwhole : k = marker.length
    · simp only [step, if_pos hwhole]
      split <;> simp [confirmed, held, hwhole] <;> omega
    · simp only [step, if_neg hwhole]
      split
      · simp only [confirmed, held, List.length_take]
        omega
      · split <;> simp only [confirmed, held, List.length_append, List.length_take,
          List.length_singleton] <;> omega
  · exact Nat.le_succ _
  · exact Nat.le_succ _

theorem length_run_le (r : Reader) (bytes : Bytes) :
    (r.run bytes).confirmed.length + (r.run bytes).held.length ≤
      r.confirmed.length + r.held.length + bytes.length := by
  induction bytes generalizing r with
  | nil => exact Nat.le_refl _
  | cons b rest ih =>
    have hstep := r.length_step_le b
    have hrest := ih (r.step b)
    rw [run_cons, List.length_cons]
    omega

/-- What is confirmed stays so, whatever is read after it. -/
theorem confirmed_step (r : Reader) (b : UInt8) : r.confirmed <+: (r.step b).confirmed := by
  rcases r with seen | ⟨payload, k⟩ | payload | ⟨payload, e⟩
  · exact List.nil_prefix
  · simp only [step]
    split
    · split
      · exact List.prefix_append _ _
      · exact List.prefix_rfl
      · exact List.prefix_rfl
    · split
      · exact List.prefix_rfl
      · split
        · exact List.prefix_append _ _
        · exact (List.prefix_append _ _).trans (List.prefix_append _ _)
  · exact List.prefix_rfl
  · exact List.prefix_rfl

theorem confirmed_run (r : Reader) (bytes : Bytes) : r.confirmed <+: (r.run bytes).confirmed := by
  induction bytes generalizing r with
  | nil => exact List.prefix_rfl
  | cons b rest ih => exact (r.confirmed_step b).trans (ih (r.step b))

/-! ### Scanning payload -/

/-- While no marker is whole, a byte is appended to payload and marker bytes alike. -/
theorem step_reading (payload : Bytes) {k : Nat} (hk : k < marker.length) (b : UInt8) :
    ∃ payload', payload' ++ marker.take (advance k b) = payload ++ marker.take k ++ [b] ∧
      (reading payload k).step b = .reading payload' (advance k b) := by
  simp only [step, advance, if_neg (Nat.ne_of_lt hk)]
  by_cases hnext : marker[k]? = some b
  · simp only [if_pos hnext]
    exact ⟨payload, by rw [take_succ_marker hnext, List.append_assoc], rfl⟩
  · simp only [if_neg hnext]
    by_cases hhead : marker.head? = some b
    · simp only [if_pos hhead]
      exact ⟨payload ++ marker.take k, by rw [take_succ_marker (k := 0) hhead]; rfl, rfl⟩
    · simp only [if_neg hhead]
      exact ⟨payload ++ marker.take k ++ [b], List.append_nil _, rfl⟩

/-- What a scan of a window comes to, for a reader that had confirmed `before` in front of the
    window. -/
def After (before : Bytes) (r : Reader) : Scan → Prop
  | .more kept k => k ≤ marker.length ∧ ∃ front, kept.toList = front ++ marker.take k ∧
      r = .reading (before ++ front) k
  | .finished kept => r = .finished (before ++ kept.toList)
  | .invalid tag => ∃ payload, r = .refused payload (.invalidTag tag)

/-- **A scan does what a reader does.** -/
theorem after_scan (before : Bytes) {kept : Array UInt8} {front : Bytes} {k : Nat}
    (hk : k ≤ marker.length) (hkept : kept.toList = front ++ marker.take k) (window : Bytes) :
    After before ((reading (before ++ front) k).run window) (scan kept k window) := by
  -- `front` is payload for certain, and the last `k` bytes kept are part of a marker
  induction window generalizing kept front k with
  | nil => exact ⟨hk, front, hkept, rfl⟩
  | cons b rest ih =>
    rw [scan, run_cons]
    by_cases hwhole : k = marker.length
    · -- a whole marker stands at the end of what is kept, and `b` is its tag
      subst hwhole
      rw [List.take_length] at hkept
      simp only [step, if_true]
      rcases Tag.ofByte? b with _ | tag
      · rw [run_refused]
        exact ⟨_, rfl⟩
      · rcases tag with _ | _ | _
        · rw [run_refused]
          exact ⟨_, rfl⟩
        · rw [List.append_assoc]
          apply ih (Nat.zero_le _)
          rw [hkept]
          exact (List.append_nil _).symm
        · rw [run_finished]
          have hsize : kept.size = front.length + marker.length := by
            rw [← Array.length_toList, hkept, List.length_append]
          have hfront : (kept.extract 0 (kept.size - marker.length)).toList = front := by
            rw [Array.toList_extract, List.extract_eq_take_drop, hkept, hsize]
            simp
          rw [After, hfront]
    · -- `b` carries the match on or breaks it, and then bytes kept for it become payload
      have hlt : k < marker.length := Nat.lt_of_le_of_ne hk hwhole
      obtain ⟨payload', hbytes, hstep⟩ := step_reading (before ++ front) hlt b
      rw [if_neg hwhole, hstep]
      have hsuffix : marker.take (advance k b) <:+ front ++ marker.take k ++ [b] := by
        apply take_advance_suffix (List.suffix_append _ _)
      obtain ⟨front', hfront'⟩ := hsuffix
      have hpayload' : payload' = before ++ front' := by
        have hsame : payload' ++ marker.take (advance k b) =
            before ++ front' ++ marker.take (advance k b) := by
          rw [hbytes, List.append_assoc before front', hfront']
          simp only [List.append_assoc]
        exact List.append_cancel_right hsame
      rw [hpayload']
      apply ih (advance_le k b)
      rw [Array.toList_push, hkept, hfront']

theorem scan_take_marker {k : Nat} (hk : k ≤ marker.length) (rest : Bytes) :
    scan #[] 0 (marker.take k ++ rest) = scan (marker.take k).toArray k rest := by
  induction k generalizing rest with
  | zero => rfl
  | succ k ih =>
    have hnext : marker[k]? = some marker[k] := List.getElem?_eq_getElem hk
    have hstep : advance k marker[k] = k + 1 := by rw [advance, if_pos hnext]
    rw [take_succ_marker hnext, List.append_assoc, ih (Nat.le_of_succ_le hk), List.singleton_append,
      scan, if_neg (Nat.ne_of_lt hk), hstep]
    simp

/-! ### One window -/

theorem length_start : Tag.start.sequence.length = escapeLength := Tag.length_sequence .start

/-- A reader in the start escape compares what it has seen as a decoder does. -/
theorem run_opening {seen : Nat} (hseen : seen < escapeLength) {chunk window : Bytes}
    (hwindow : window = Tag.start.sequence.take seen ++ chunk) :
    (opening seen).run chunk =
      if window.take escapeLength ≠ Tag.start.sequence.take (window.take escapeLength).length then
        .refused [] .missingStart
      else if (window.take escapeLength).length < escapeLength then
        .opening (window.take escapeLength).length
      else (reading [] 0).run (window.drop escapeLength) := by
  have hfront : (Tag.start.sequence.take seen).length = seen := by
    rw [List.length_take, length_start]
    omega
  induction chunk generalizing seen with
  | nil =>
    have hall : window.take escapeLength = Tag.start.sequence.take seen := by
      rw [hwindow, List.append_nil, List.take_of_length_le (by omega)]
    rw [hall, hfront, if_neg (by simp), if_pos hseen]
    rfl
  | cons b rest ih =>
    by_cases hb : Tag.start.sequence[seen]? = some b
    · have hwindow' : window = Tag.start.sequence.take (seen + 1) ++ rest := by
        rw [hwindow, List.take_add_one, hb, List.append_assoc]
        rfl
      rw [run_cons, step, if_pos hb]
      by_cases hwhole : seen + 1 = escapeLength
      · have hstart : window = Tag.start.sequence ++ rest := by
          rw [hwindow', hwhole, ← length_start, List.take_length]
        have htake : window.take escapeLength = Tag.start.sequence := by
          rw [hstart, ← length_start, List.take_left]
        have hdrop : window.drop escapeLength = rest := by
          rw [hstart, ← length_start, List.drop_left]
        rw [if_pos hwhole, htake, hdrop, List.take_length, if_neg (by simp), length_start,
          if_neg (Nat.lt_irrefl _)]
      · rw [if_neg hwhole]
        have hlt : seen + 1 < escapeLength := by omega
        refine ih hlt hwindow' ?_
        rw [List.length_take, length_start]
        omega
    · rw [run_cons, step, if_neg hb, run_refused]
      refine (if_pos fun hsame => hb ?_).symm
      -- the byte at position `seen` of the window is `b`, so an agreeing window would have it in
      -- the start escape
      have hat : (window.take escapeLength)[seen]? = some b := by
        rw [List.getElem?_take_of_lt hseen, hwindow,
          List.getElem?_append_right (Nat.le_of_eq hfront), hfront, Nat.sub_self]
        rfl
      obtain ⟨hlength, _⟩ := List.getElem?_eq_some_iff.1 hat
      rw [hsame, List.getElem?_take_of_lt hlength] at hat
      exact hat

/-- What a decoder says of a window, when `r` is the reader that has read the window and confirmed
    `fresh` in it. -/
def Says (before : Bytes) (r : Reader) (last : Bool) : Decoder × Except FramingError Decoded → Prop
  | (_, .error e) => r.result = .error e ∧ (last = false → ∃ payload, r = .refused payload e)
  | (d, .ok decoded) =>
    r.Live ∧ d = r.decoder ∧ (last = true → ∃ payload, r = .finished payload) ∧
      ∃ fresh, r.confirmed = before ++ fresh ∧ decoded = ⟨fresh ++ r.held, fresh.length⟩

theorem says_decodePayload (before : Bytes) {k : Nat} (hk : k ≤ marker.length) (chunk : Bytes)
    (last : Bool) :
    Says before ((reading before k).run chunk) last
      (decodePayload (marker.take k ++ chunk) last) := by
  have hkept : (marker.take k).toArray.toList = [] ++ marker.take k := rfl
  have hafter := after_scan before hk hkept chunk
  rw [List.append_nil] at hafter
  unfold decodePayload
  rw [scan_take_marker hk]
  generalize scan (marker.take k).toArray k chunk = outcome at hafter ⊢
  rcases outcome with ⟨kept, k'⟩ | kept | tag
  · obtain ⟨hk', front, hkept, hr⟩ := hafter
    rw [hr]
    rcases last with _ | _
    · refine ⟨hk', rfl, by simp, front, rfl, ?_⟩
      have hsafe : kept.size - k' = front.length := by
        rw [← Array.length_toList, hkept, List.length_append, List.length_take]
        omega
      simp only [held, hkept, hsafe]
    · exact ⟨rfl, by simp⟩
  · have hr : _ = finished (before ++ kept.toList) := hafter
    rw [hr]
    refine ⟨trivial, rfl, fun _ => ⟨_, rfl⟩, kept.toList, rfl, ?_⟩
    rw [held, List.append_nil, Array.length_toList]
  · obtain ⟨payload, hr⟩ := hafter
    rw [hr]
    exact ⟨rfl, fun _ => ⟨payload, rfl⟩⟩

/-- **A decoder that is shown what a reader holds and a chunk says what the reader finds in the
    chunk.** -/
theorem says_decode {r : Reader} (hr : r.Live) (chunk : Bytes) (last : Bool) :
    Says r.confirmed (r.run chunk) last (r.decoder.decode (r.held ++ chunk) last) := by
  rcases r with seen | ⟨payload, k⟩ | payload | ⟨payload, e⟩
  · change Says [] ((opening seen).run chunk) last
      (Decoder.notStarted.decode (Tag.start.sequence.take seen ++ chunk) last)
    generalize hwindow : Tag.start.sequence.take seen ++ chunk = window
    rw [run_opening hr hwindow.symm]
    simp only [Decoder.decode]
    by_cases hsame : window.take escapeLength ≠
      Tag.start.sequence.take (window.take escapeLength).length
    · rw [if_pos hsame, if_pos hsame]
      exact ⟨rfl, fun _ => ⟨[], rfl⟩⟩
    · rw [if_neg hsame, if_neg hsame]
      by_cases hshort : (window.take escapeLength).length < escapeLength
      · -- part of the start escape is held, and lacks the rest if nothing follows
        rw [if_pos hshort, if_pos hshort]
        rcases last with _ | _
        · refine ⟨hshort, rfl, by simp, [], rfl, ?_⟩
          have hall : window.take escapeLength = window := by
            rw [List.length_take] at hshort
            exact List.take_of_length_le (by omega)
          rw [held, ← not_not.1 hsame, hall]
          rfl
        · exact ⟨rfl, by simp⟩
      · rw [if_neg hshort, if_neg hshort]
        exact says_decodePayload [] (Nat.zero_le _) _ last
  · exact says_decodePayload payload hr chunk last
  · rw [run_finished]
    exact ⟨trivial, rfl, fun _ => ⟨payload, rfl⟩, [], (List.append_nil _).symm, rfl⟩
  · exact hr.elim

/-! ### A whole stream -/

def decoding (r : Reader) : Decoding := ⟨r.decoder, r.held, r.confirmed.toArray⟩

theorem feed_decoding {r : Reader} (hr : r.Live) (chunk : Bytes) :
    (∃ payload e, r.run chunk = .refused payload e ∧ r.decoding.feed chunk false = .error e) ∨
      (r.run chunk).Live ∧ r.decoding.feed chunk false = .ok (r.run chunk).decoding := by
  have hsays := says_decode hr chunk false
  unfold Decoding.feed decoding
  dsimp only
  generalize r.decoder.decode (r.held ++ chunk) false = said at hsays ⊢
  rcases said with ⟨d, e | decoded⟩
  · obtain ⟨payload, hrefused⟩ := hsays.2 rfl
    exact Or.inl ⟨payload, e, hrefused, rfl⟩
  · obtain ⟨hlive, hd, _, fresh, hconfirmed, hdecoded⟩ := hsays
    refine Or.inr ⟨hlive, ?_⟩
    rw [hd, hdecoded, hconfirmed]
    simp

theorem foldlM_feed {r : Reader} (hr : r.Live) (chunks : List Bytes) :
    (∃ payload e, r.run chunks.flatten = .refused payload e ∧
        chunks.foldlM (fun d chunk => d.feed chunk false) r.decoding = .error e) ∨
      (r.run chunks.flatten).Live ∧
        chunks.foldlM (fun d chunk => d.feed chunk false) r.decoding =
          .ok (r.run chunks.flatten).decoding := by
  induction chunks generalizing r with
  | nil => exact Or.inr ⟨hr, rfl⟩
  | cons chunk chunks ih =>
    rw [List.flatten_cons, run_append, List.foldlM_cons]
    rcases feed_decoding hr chunk with ⟨payload, e, hrefused, hfeed⟩ | ⟨hlive, hfeed⟩
    · refine Or.inl ⟨payload, e, ?_, ?_⟩
      · rw [hrefused, run_refused]
      · rw [hfeed]
        rfl
    · rw [hfeed]
      exact ih hlive

end Reader

/-- **A stream decodes as its bytes are read**, however it is cut into chunks. -/
theorem decodeChunks_eq (chunks : List Bytes) :
    decodeChunks chunks = (Reader.start.run chunks.flatten).result := by
  unfold decodeChunks
  rcases Reader.foldlM_feed Reader.live_start chunks with ⟨payload, e, hrefused, hfold⟩ |
    ⟨hlive, hfold⟩
  · have hfold' : chunks.foldlM (fun d chunk => d.feed chunk false) Decoding.start = .error e :=
      hfold
    rw [hfold', hrefused]
    rfl
  · have hfold' : chunks.foldlM (fun d chunk => d.feed chunk false) Decoding.start = .ok _ := hfold
    rw [hfold']
    generalize Reader.start.run chunks.flatten = r at hlive ⊢
    -- at the end of the input the decoder is shown what is held once more, and nothing else
    have hsays := Reader.says_decode hlive [] true
    rw [List.append_nil, Reader.run_nil] at hsays
    simp only [bind, Except.bind, Decoding.feed, Reader.decoding, List.append_nil]
    generalize r.decoder.decode r.held true = said at hsays ⊢
    rcases said with ⟨d, e | decoded⟩
    · exact hsays.1.symm
    · obtain ⟨_, _, hfinished, fresh, hconfirmed, hdecoded⟩ := hsays
      obtain ⟨payload, rfl⟩ := hfinished rfl
      have hfresh : fresh = [] :=
        List.append_cancel_left (hconfirmed.symm.trans (List.append_nil _).symm)
      rw [hdecoded, hfresh]
      simp [Reader.result, Reader.confirmed, pure, Except.pure]

/-- **The verdict on a stream does not depend on where it is cut**: neither the payload nor the
    fault, its tag byte included. -/
theorem decodeChunks_eq_of_flatten_eq {chunks chunks' : List Bytes}
    (h : chunks.flatten = chunks'.flatten) :
    decodeChunks chunks = decodeChunks chunks' := by
  rw [decodeChunks_eq, decodeChunks_eq, h]

/-- A stream with a bad tag, cut before that tag and behind it. -/
theorem decodeChunks_cut_before_bad_tag :
    [Tag.start.sequence ++ [0x61] ++ marker, [], [0x78, 0x62]].flatten =
        [Tag.start.sequence, [0x61] ++ marker ++ [0x78], [0x62]].flatten ∧
      decodeChunks [Tag.start.sequence ++ [0x61] ++ marker, [], [0x78, 0x62]] =
        decodeChunks [Tag.start.sequence, [0x61] ++ marker ++ [0x78], [0x62]] ∧
      decodeChunks [Tag.start.sequence ++ [0x61] ++ marker, [], [0x78, 0x62]] =
        .error (.invalidTag 0x78) :=
  ⟨rfl, decodeChunks_eq_of_flatten_eq rfl, rfl⟩

end StreamRelay.Framing
