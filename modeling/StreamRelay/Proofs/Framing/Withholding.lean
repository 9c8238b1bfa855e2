/-
  StreamRelay/Proofs/Framing/Withholding.lean
  ===========================================
  **What is withheld is what must be, and a scan misses no marker.**

  Reader and writer withhold the bytes at the end of a run that are pending. That is enough, since
  what is in front of them ends at a seam and no marker begins there whatever comes next; and it is
  not too much, since the rest of a marker may come next (`occurrences_append_rest`). There is never
  a choice between parts of a marker to withhold, for none ends in a shorter one (`Begins.eq`).

  For the same reason a scan may go on right behind each marker that it finds: the cut there is a
  seam too, so it comes by every occurrence (`markersFound_eq`), and putting a tag behind each
  stuffs the run (`tagged_eq`).

  Main statement: `pending_exact`.
-/
import StreamRelay.Framing.Decoder
import StreamRelay.Proofs.Framing.Occurrences

namespace StreamRelay.Framing

variable {bytes before : Bytes} {i j k : Nat}

/-! ### Parts of a marker at the end -/

/-- The last `k` bytes of a run are some, but not all, of the first bytes of the marker. -/
structure Begins (bytes : Bytes) (k : Nat) : Prop where
  pos : 0 < k
  part : k < marker.length
  suffix : marker.take k <:+ bytes

theorem Begins.pending_eq (h : Begins bytes k) : pending bytes = k := by
  have hle := le_matched (Nat.le_of_lt h.part) h.suffix
  have hmatched : k = matched bytes :=
    eq_of_take_suffix h.pos hle (matched_le bytes) h.suffix (take_matched_suffix bytes)
  rw [pending, ← hmatched, if_neg (Nat.ne_of_lt h.part)]

/-- **At most one part of the marker stands at the end of a run.** -/
theorem Begins.eq (h : Begins bytes j) (h' : Begins bytes k) : j = k :=
  h.pending_eq.symm.trans h'.pending_eq

theorem begins_pending (h : 0 < pending bytes) : Begins bytes (pending bytes) :=
  ⟨h, pending_lt bytes, take_pending_suffix bytes⟩

/-! ### Markers in what comes next -/

/-- **No marker that is still to come begins in front of the pending bytes.** -/
theorem le_of_occursAt_append (hnone : ∀ i, ¬ OccursAt bytes i) {more : Bytes}
    (h : OccursAt (bytes ++ more) i) :
    bytes.length - pending bytes ≤ i := by
  have hseam := ((seam_nil bytes).take).append_right more
  rw [List.nil_append] at hseam
  rw [← List.take_append_drop (bytes.length - pending bytes) bytes, List.append_assoc,
    hseam.occursAt_append] at h
  rcases h with hfront | ⟨j, rfl, -⟩
  · -- a marker in front of the pending bytes would be one of the run
    exact absurd hfront.of_take (hnone i)
  · rw [List.length_take, Nat.min_eq_left (Nat.sub_le _ _)]
    exact Nat.le_add_right _ _

theorem occurrences_eq_singleton (h : ∀ j, OccursAt bytes j ↔ j = i) : occurrences bytes = [i] := by
  apply List.perm_singleton.1
  rw [List.perm_ext_iff_of_nodup (nodup_occurrences _) (by simp)]
  intro j
  rw [mem_occurrences, h, List.mem_singleton]

/-- **A marker may begin with the pending bytes.** If the rest comes next, it is the only one. -/
theorem occurrences_append_rest (hnone : ∀ i, ¬ OccursAt bytes i) :
    occurrences (bytes ++ marker.drop (pending bytes)) = [bytes.length - pending bytes] := by
  have hlength : (bytes ++ marker.drop (pending bytes)).length ≤ bytes.length - pending bytes +
      marker.length := by
    have hpart := pending_lt bytes
    rw [List.length_append, List.length_drop]
    omega
  refine occurrences_eq_singleton fun j => ⟨fun h => ?_, ?_⟩
  · have hfrom := le_of_occursAt_append hnone h
    have hto := h.length_le
    omega
  · rintro rfl
    have hend : (bytes ++ marker.drop (pending bytes)).drop (bytes.length - pending bytes) =
        marker := by
      rw [List.drop_append_of_le_length (Nat.sub_le _ _), drop_pending, List.take_append_drop]
    exact ⟨[], (List.append_nil marker).trans hend.symm⟩

/-! ### What reader and writer withhold -/

theorem matched_ne_of_none (hnone : ∀ i, ¬ OccursAt bytes i) : matched bytes ≠ marker.length := by
  intro hmatched
  have hlong := (matched_eq_length_iff.1 hmatched).length_le
  apply hnone (bytes.length - marker.length)
  apply occursAt_iff.2
  rw [Nat.sub_add_cancel hlong, List.take_length]
  exact ⟨Nat.le_refl _, hmatched⟩

theorem pending_eq_matched (hnone : ∀ i, ¬ OccursAt bytes i) : pending bytes = matched bytes :=
  if_neg (matched_ne_of_none hnone)

/-- A run without a marker is stuffed by leaving it as it is. -/
theorem stuff_of_none (hnone : ∀ i, ¬ OccursAt bytes i) : stuff bytes = bytes := by
  induction bytes using List.reverseRecOn with
  | nil => rfl
  | append_singleton bytes b ih =>
    rcases stuff_concat_cases bytes b with ⟨hwhole, -⟩ | ⟨-, hstuff⟩
    · exact absurd hwhole (matched_ne_of_none hnone)
    · rw [hstuff, ih fun i h => hnone i (h.append_right [b])]

/-- A writer withholds the pending bytes of a run without a marker, and writes the others as they
    are. -/
theorem encode_of_none (hnone : ∀ i, ¬ OccursAt bytes i) :
    encode bytes false = ⟨bytes.take (bytes.length - pending bytes),
      bytes.length - pending bytes⟩ := by
  have htaken : taken bytes false = bytes.length - pending bytes := rfl
  rw [encode_eq, htaken, stuff_of_none]
  exact fun i h => hnone i h.of_take

theorem scan_of_none {rest : Bytes} (hnone : ∀ i, ¬ OccursAt (before ++ rest) i) :
    scan before.toArray (matched before) rest =
      .more (before ++ rest).toArray (matched (before ++ rest)) := by
  induction rest generalizing before with
  | nil => rw [List.append_nil]; rfl
  | cons b rest ih =>
    have hpart : matched before ≠ marker.length :=
      matched_ne_of_none fun i h => hnone i (h.append_right _)
    have hnext : before ++ b :: rest = before ++ [b] ++ rest := by simp
    rw [hnext] at hnone ⊢
    rw [scan, if_neg hpart, ← ih hnone, matched_concat, List.push_toArray]

/-- A reader vouches for all of a run without a marker but the pending bytes. -/
theorem decodePayload_of_none (hnone : ∀ i, ¬ OccursAt bytes i) :
    decodePayload bytes false = (.started, .ok ⟨bytes, bytes.length - pending bytes⟩) := by
  have hscan : scan #[] 0 bytes = .more bytes.toArray (matched bytes) :=
    @scan_of_none [] bytes hnone
  rw [decodePayload, hscan, pending_eq_matched hnone]
  rfl

/-! ### A scan that goes on behind each marker -/

def findMarker? : Bytes → Option Nat
  | [] => none
  | b :: rest => if marker <+: b :: rest then some 0 else (findMarker? rest).map (· + 1)

theorem findMarker?_none (h : findMarker? bytes = none) : ∀ i, ¬ OccursAt bytes i := by
  induction bytes with
  | nil =>
    intro i hoccurs
    have hlength := hoccurs.length_le
    have hpos : 0 < marker.length := by decide
    rw [List.length_nil] at hlength
    omega
  | cons b rest ih =>
    unfold findMarker? at h
    split at h
    · cases h
    · next hhere =>
      intro i hoccurs
      rcases i with _ | i
      · exact hhere hoccurs
      · exact ih (Option.map_eq_none_iff.1 h) i hoccurs

theorem findMarker?_some (h : findMarker? bytes = some i) :
    OccursAt bytes i ∧ ∀ j < i, ¬ OccursAt bytes j := by
  induction bytes generalizing i with
  | nil => cases h
  | cons b rest ih =>
    unfold findMarker? at h
    split at h
    · next hhere =>
      cases h
      exact ⟨hhere, fun j hj => absurd hj (Nat.not_lt_zero j)⟩
    · next hhere =>
      obtain ⟨n, hn, rfl⟩ := Option.map_eq_some_iff.1 h
      obtain ⟨hoccurs, hfirst⟩ := ih hn
      refine ⟨hoccurs, fun j hj hearlier => ?_⟩
      rcases j with _ | j
      · exact hhere hearlier
      · exact hfirst j (Nat.lt_of_succ_lt_succ hj) hearlier

theorem length_drop_findMarker? (h : findMarker? bytes = some i) :
    (bytes.drop (i + marker.length)).length < bytes.length := by
  have hlength := (findMarker?_some h).1.length_le
  have hpos : 0 < marker.length := by decide
  rw [List.length_drop]
  omega

/-- The offsets of the markers that a scan from the left finds if it goes on right behind each. -/
def markersFound (bytes : Bytes) : List Nat :=
  match _h : findMarker? bytes with
  | none => []
  | some i => i :: (markersFound (bytes.drop (i + marker.length))).map (i + marker.length + ·)
termination_by bytes.length
decreasing_by exact length_drop_findMarker? _h

theorem markersFound_of_none (h : findMarker? bytes = none) : markersFound bytes = [] := by
  rw [markersFound]
  split <;> simp_all

theorem markersFound_of_some (h : findMarker? bytes = some i) :
    markersFound bytes =
      i :: (markersFound (bytes.drop (i + marker.length))).map (i + marker.length + ·) := by
  rw [markersFound]
  split <;> simp_all

/-- A run with a tag put behind each marker that such a scan finds. -/
def tagged (bytes : Bytes) : Bytes :=
  match _h : findMarker? bytes with
  | none => bytes
  | some i =>
    bytes.take (i + marker.length) ++ Tag.mid.byte :: tagged (bytes.drop (i + marker.length))
termination_by bytes.length
decreasing_by exact length_drop_findMarker? _h

theorem tagged_of_none (h : findMarker? bytes = none) : tagged bytes = bytes := by
  rw [tagged]
  split <;> simp_all

theorem tagged_of_some (h : findMarker? bytes = some i) :
    tagged bytes = bytes.take (i + marker.length) ++
      Tag.mid.byte :: tagged (bytes.drop (i + marker.length)) := by
  rw [tagged]
  split <;> simp_all

theorem length_take_findMarker? (h : findMarker? bytes = some i) :
    (bytes.take (i + marker.length)).length = i + marker.length := by
  rw [List.length_take, Nat.min_eq_left (findMarker?_some h).1.length_le]

/-- Up to its end the first marker is the only one. -/
theorem occursAt_take_findMarker? (h : findMarker? bytes = some i) :
    OccursAt (bytes.take (i + marker.length)) j ↔ j = i := by
  obtain ⟨hoccurs, hfirst⟩ := findMarker?_some h
  have hlength := length_take_findMarker? h
  constructor
  · intro hfront
    have hle := hfront.length_le
    have hnotBefore : ¬ j < i := fun hj => hfirst j hj hfront.of_take
    omega
  · rintro rfl
    rw [← List.take_append_drop (j + marker.length) bytes] at hoccurs
    exact hoccurs.of_append (Nat.le_of_eq hlength.symm)

/-- **Right behind the first marker there is a seam.** -/
theorem seam_findMarker? (h : findMarker? bytes = some i) :
    Seam (bytes.take (i + marker.length)) (bytes.drop (i + marker.length)) := by
  have hends := (occursAt_iff.1 ((occursAt_take_findMarker? h).2 rfl)).2
  rw [List.take_take, Nat.min_self] at hends
  exact Or.inl (if_pos hends)

theorem stuff_take_findMarker? (h : findMarker? bytes = some i) :
    stuff (bytes.take (i + marker.length)) = bytes.take (i + marker.length) ++ [Tag.mid.byte] := by
  have honly (j : Nat) : OccursAt (bytes.take (i + marker.length)) j ↔ j = i :=
    occursAt_take_findMarker? h
  have hlength := length_take_findMarker? h
  generalize bytes.take (i + marker.length) = front at honly hlength
  rcases List.eq_nil_or_concat front with rfl | ⟨init, b, rfl⟩
  · exact absurd ((honly i).2 rfl).length_le (by simp)
  · rw [List.concat_eq_append] at honly hlength ⊢
    rw [List.length_append, List.length_singleton] at hlength
    -- without its last byte the front has no marker
    have hnone (j : Nat) : ¬ OccursAt init j := by
      intro hoccurs
      obtain rfl := (honly j).1 (hoccurs.append_right [b])
      have hle := hoccurs.length_le
      omega
    rcases occursAt_concat.1 ((honly i).2 rfl) with hoccurs | ⟨-, hwhole⟩
    · exact absurd hoccurs (hnone i)
    · rcases stuff_concat_cases init b with ⟨-, hstuff⟩ | ⟨hpart, -⟩
      · rw [hstuff, stuff_of_none hnone]
      · exact absurd hwhole hpart

/-- **The scan finds every occurrence**, overlapping ones included. -/
theorem markersFound_eq (bytes : Bytes) : markersFound bytes = occurrences bytes := by
  induction bytes using markersFound.induct with
  | case1 bytes h =>
    have hnone : occurrences bytes = [] :=
      List.eq_nil_iff_forall_not_mem.2 fun i hmem => findMarker?_none h i (mem_occurrences.1 hmem)
    rw [markersFound_of_none h, hnone]
  | case2 bytes i h ih =>
    have hcut := (seam_findMarker? h).occurrences_append
    rw [List.take_append_drop, occurrences_eq_singleton fun _ => occursAt_take_findMarker? h,
      length_take_findMarker? h, ← ih] at hcut
    rw [hcut, markersFound_of_some h]
    rfl

/-- **A tag behind each marker that the scan finds stuffs the run.** -/
theorem tagged_eq (bytes : Bytes) : tagged bytes = stuff bytes := by
  induction bytes using tagged.induct with
  | case1 bytes h =>
    rw [stuff_of_none (findMarker?_none h), tagged_of_none h]
  | case2 bytes i h ih =>
    have hcut := (seam_findMarker? h).stuff_append List.prefix_rfl
    rw [List.take_append_drop, stuff_take_findMarker? h, ← ih, List.append_assoc] at hcut
    rw [hcut, tagged_of_some h]
    rfl

/-! ### Both together -/

/-- **The pending bytes are those to withhold, no more and no less.** Take a run without a marker.
    Whatever comes next, no marker begins in front of the pending bytes, and if there are any,
    something may come next that makes a marker begin with them. They are the part of a marker that
    the run ends in; there is one at most, and nothing is pending if there is none. Just these bytes
    are withheld by writer and reader. And in any run a scan that goes on right behind each marker
    finds every occurrence, and the writer puts its tags where that scan would. -/
theorem pending_exact (hnone : occurrences bytes = []) :
    (∀ more, ∀ i ∈ occurrences (bytes ++ more), bytes.length - pending bytes ≤ i) ∧
      ((∀ j k, Begins bytes j → Begins bytes k → j = k) ∧
        (∀ k, Begins bytes k → pending bytes = k) ∧
        ((∀ k, ¬ Begins bytes k) → pending bytes = 0)) ∧
      (0 < pending bytes → ∃ more, occurrences (bytes ++ more) = [bytes.length - pending bytes]) ∧
      (encode bytes false = ⟨bytes.take (bytes.length - pending bytes),
        bytes.length - pending bytes⟩ ∧
        decodePayload bytes false = (.started, .ok ⟨bytes, bytes.length - pending bytes⟩)) ∧
      ∀ any, markersFound any = occurrences any ∧ encode any true = ⟨tagged any, any.length⟩ := by
  have hnone' (i : Nat) : ¬ OccursAt bytes i := by
    rw [← mem_occurrences, hnone]
    exact List.not_mem_nil
  refine ⟨fun more i hi => le_of_occursAt_append hnone' (mem_occurrences.1 hi),
    ⟨fun j k => Begins.eq,
    fun k => Begins.pending_eq, fun h => ?_⟩, fun _ => ⟨_, occurrences_append_rest hnone'⟩,
    ⟨encode_of_none hnone', decodePayload_of_none hnone'⟩, fun any => ⟨markersFound_eq any, ?_⟩⟩
  · by_contra hsome
    exact h _ (begins_pending (Nat.pos_of_ne_zero hsome))
  · rw [encode_eq, tagged_eq]
    simp [taken]

/-- Eight bytes of a marker behind another byte: the eight are withheld, and two more make them a
    marker. -/
theorem pending_exact_of_eight_bytes :
    occurrences (0x78 :: marker.take 8) = [] ∧ pending (0x78 :: marker.take 8) = 8 ∧
      (∀ more, ∀ i ∈ occurrences (0x78 :: marker.take 8 ++ more), 1 ≤ i) ∧
      (∃ more, occurrences (0x78 :: marker.take 8 ++ more) = [1]) ∧
      encode (0x78 :: marker.take 8) false = ⟨[0x78], 1⟩ ∧
      markersFound (marker ++ marker.take 4 ++ marker) = [0, 14] := by
  have hnone : occurrences (0x78 :: marker.take 8) = [] := by decide
  obtain ⟨hfrom, -, hmay, ⟨hencode, -⟩, hfound⟩ := pending_exact hnone
  have hpending : pending (0x78 :: marker.take 8) = 8 := rfl
  have htwo : occurrences (marker ++ marker.take 4 ++ marker) = [0, 14] := by decide
  exact ⟨hnone, hpending, hfrom, hmay (by decide), hencode, (hfound _).1.trans htwo⟩

end StreamRelay.Framing
