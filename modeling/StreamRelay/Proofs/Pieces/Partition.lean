/-
  StreamRelay/Proofs/Pieces/Partition.lean
  ========================================
  **Cutting loses nothing, and every partition can be had.**

  A partition of a payload is a list of non-empty pieces that follow one another in it. Both ways of
  cutting give one (`partition_ofSize`, `partition_bySplits`). The numbers that lead to a given
  partition are the lengths of its pieces less one: a piece is no longer than what remains, so the
  modulus leaves its number alone (`bySplits_splitsOf`).

  Main statement: `cuts_partition`.
-/
import Mathlib.Data.List.Basic
import StreamRelay.Pieces

namespace StreamRelay.Pieces

variable {size parts : Nat} {payload : Bytes} {pieces : List Bytes} {splits : List Nat}

/-- **The pieces make up the payload**: none is empty, and they follow one another in it. -/
structure Partition (payload : Bytes) (pieces : List Bytes) : Prop where
  nonempty : ∀ piece ∈ pieces, piece ≠ []
  flatten : pieces.flatten = payload

theorem Partition.nil : Partition [] [] := ⟨fun _ hmem => absurd hmem List.not_mem_nil, rfl⟩

/-- A piece at the front and a partition of what is behind it. -/
theorem Partition.cons {piece rest : Bytes} (hpiece : piece ≠ []) (h : Partition rest pieces) :
    Partition (piece ++ rest) (piece :: pieces) where
  nonempty := List.forall_mem_cons.2 ⟨hpiece, h.nonempty⟩
  flatten := by rw [List.flatten_cons, h.flatten]

/-- Pieces of one length, the last one possibly shorter. -/
structure Level (size : Nat) (pieces : List Bytes) : Prop where
  front : ∀ piece ∈ pieces.dropLast, piece.length = size
  all : ∀ piece ∈ pieces, piece.length ≤ size

/-! ### Pieces of one length -/

theorem ofSize_of_ne_nil (hsize : 0 < size) (hpayload : payload ≠ []) :
    ofSize size payload = payload.take size :: ofSize size (payload.drop size) := by
  obtain ⟨n, rfl⟩ := Nat.exists_eq_succ_of_ne_zero (Nat.ne_of_gt hsize)
  obtain ⟨b, rest, rfl⟩ := List.exists_cons_of_ne_nil hpayload
  rw [ofSize]
  rfl

/-- Pieces of one length, piece by piece: what holds of none, and of a piece in front of what is
    left, holds of all. -/
theorem ofSize_induction (hsize : 0 < size) {motive : Bytes → List Bytes → Prop}
    (hnil : motive [] [])
    (hcons : ∀ payload, payload ≠ [] →
      motive (payload.drop size) (ofSize size (payload.drop size)) →
      motive payload (payload.take size :: ofSize size (payload.drop size))) (payload : Bytes) :
    motive payload (ofSize size payload) := by
  induction payload using ofSize.induct size with
  | case1 =>
    rw [ofSize]
    exact hnil
  | case2 b rest ih =>
    have hbehind : (b :: rest).drop size = rest.drop (size - 1) := by
      rw [List.drop_cons hsize]
    rw [ofSize_of_ne_nil hsize (List.cons_ne_nil b rest)]
    exact hcons _ (List.cons_ne_nil b rest) (hbehind ▸ ih)

theorem partition_ofSize (hsize : 0 < size) (payload : Bytes) :
    Partition payload (ofSize size payload) := by
  refine ofSize_induction hsize Partition.nil (fun payload hpayload ih => ?_) payload
  have hpiece : payload.take size ≠ [] := by
    rw [Ne, List.take_eq_nil_iff]
    exact not_or.2 ⟨Nat.ne_of_gt hsize, hpayload⟩
  have hpartition := ih.cons hpiece
  rwa [List.take_append_drop] at hpartition

theorem level_ofSize (hsize : 0 < size) (payload : Bytes) : Level size (ofSize size payload) := by
  refine ofSize_induction (motive := fun _ => Level size) hsize ⟨by simp, by simp⟩
    (fun payload _ ih => ?_) payload
  constructor
  · intro piece hmem
    by_cases hrest : payload.drop size = []
    · rw [hrest, ofSize] at hmem
      exact absurd hmem List.not_mem_nil
    · have hmore : ofSize size (payload.drop size) ≠ [] := by
        rw [ofSize_of_ne_nil hsize hrest]
        exact List.cons_ne_nil _ _
      rw [List.dropLast_cons_of_ne_nil hmore, List.mem_cons] at hmem
      rcases hmem with rfl | hmem
      · -- the piece is not the last, so there are bytes behind it
        rw [List.drop_eq_nil_iff, Nat.not_le] at hrest
        rw [List.length_take, Nat.min_eq_left (Nat.le_of_lt hrest)]
      · exact ih.front piece hmem
  · exact List.forall_mem_cons.2 ⟨List.length_take_le _ _, ih.all⟩

theorem length_ofSize_le (hsize : 0 < size) (hpayload : payload.length ≤ parts * size) :
    (ofSize size payload).length ≤ parts := by
  revert parts
  refine ofSize_induction (motive := fun payload pieces => ∀ {parts : Nat},
    payload.length ≤ parts * size →
    pieces.length ≤ parts) hsize (fun _ => Nat.zero_le _)
    (fun payload hpayload ih parts hle => ?_) payload
  rcases parts with _ | parts
  · rw [Nat.zero_mul, Nat.le_zero] at hle
    exact absurd (List.length_eq_zero_iff.1 hle) hpayload
  · rw [Nat.succ_mul] at hle
    refine Nat.succ_le_succ (ih ?_)
    rw [List.length_drop]
    omega

/-- The length that so many parts need: the payload divided, rounded up. -/
theorem length_le_mul_ceil (hparts : 0 < parts) (n : Nat) :
    n ≤ parts * ((n + parts - 1) / parts) := by
  have hdiv := Nat.div_add_mod (n + parts - 1) parts
  have hmod := Nat.mod_lt (n + parts - 1) hparts
  omega

/-- **Parts of one length**, no more of them than asked for. -/
theorem inParts?_eq (hparts : 0 < parts) (payload : Bytes) :
    ∃ pieces size, inParts? payload parts = some pieces ∧ Partition payload pieces ∧
      Level size pieces ∧
      pieces.length ≤ parts := by
  have hcut : inParts? payload parts =
      some (ofSize ((payload.length + parts - 1) / parts) payload) :=
    if_neg (Nat.ne_of_gt hparts)
  rcases payload with _ | ⟨b, rest⟩
  · rw [ofSize] at hcut
    exact ⟨[], 0, hcut, Partition.nil, ⟨by simp, by simp⟩, Nat.zero_le _⟩
  · have hsize : 0 < ((b :: rest).length + parts - 1) / parts := by
      apply Nat.div_pos _ hparts
      rw [List.length_cons]
      omega
    exact ⟨_, _, hcut, partition_ofSize hsize _, level_ofSize hsize _,
      length_ofSize_le hsize (length_le_mul_ceil hparts _)⟩

/-! ### Pieces by numbers -/

theorem bySplits_cons (s : Nat) (splits : List Nat) (hpayload : payload ≠ []) :
    bySplits (s :: splits) payload =
      payload.take (1 + s % payload.length) :: bySplits splits
        (payload.drop (1 + s % payload.length)) := by
  obtain ⟨b, rest, rfl⟩ := List.exists_cons_of_ne_nil hpayload
  rw [bySplits]
  rfl

theorem bySplits_nil_right (splits : List Nat) : bySplits splits [] = [] := by
  cases splits <;> rw [bySplits]

/-- **Whatever the numbers, the pieces make up the payload.** -/
theorem partition_bySplits (splits : List Nat) (payload : Bytes) :
    Partition payload (bySplits splits payload) := by
  induction splits generalizing payload with
  | nil =>
    rcases payload with _ | ⟨b, rest⟩
    · exact Partition.nil
    · have hpartition := Partition.nil.cons (List.cons_ne_nil b rest)
      rwa [List.append_nil] at hpartition
  | cons s splits ih =>
    by_cases hpayload : payload = []
    · rw [hpayload, bySplits_nil_right]
      exact Partition.nil
    · have hpiece : payload.take (1 + s % payload.length) ≠ [] := by
        rw [Ne, List.take_eq_nil_iff]
        exact not_or.2 ⟨by omega, hpayload⟩
      have hpartition := (ih (payload.drop (1 + s % payload.length))).cons hpiece
      rwa [List.take_append_drop, ← bySplits_cons s splits hpayload] at hpartition

/-- There is a piece for each number at most, and one for what remains. -/
theorem length_bySplits_le (splits : List Nat) (payload : Bytes) :
    (bySplits splits payload).length ≤ splits.length + 1 := by
  induction splits generalizing payload with
  | nil => rcases payload with _ | ⟨b, rest⟩ <;> simp [bySplits]
  | cons s splits ih =>
    by_cases hpayload : payload = []
    · rw [hpayload, bySplits_nil_right]
      exact Nat.zero_le _
    · rw [bySplits_cons s splits hpayload]
      exact Nat.succ_le_succ (ih _)

def splitsOf (pieces : List Bytes) : List Nat := pieces.map fun piece => piece.length - 1

/-- **Every partition comes of its numbers.** -/
theorem bySplits_splitsOf (h : Partition payload pieces) :
    bySplits (splitsOf pieces) payload = pieces := by
  obtain ⟨hnonempty, rfl⟩ := h
  induction pieces with
  | nil => rfl
  | cons piece pieces ih =>
    obtain ⟨hpiece, hrest⟩ := List.forall_mem_cons.1 hnonempty
    have hpos := List.length_pos_iff.2 hpiece
    have hpayload : (piece :: pieces).flatten ≠ [] := by simp [hpiece]
    -- the piece is part of the payload, so its number is below the modulus
    have hsize : 1 + (piece.length - 1) % (piece :: pieces).flatten.length = piece.length := by
      rw [Nat.mod_eq_of_lt, Nat.add_sub_cancel' hpos]
      rw [List.flatten_cons, List.length_append]
      omega
    rw [splitsOf, List.map_cons, bySplits_cons _ _ hpayload, hsize, List.flatten_cons,
      List.take_left, List.drop_left]
    exact congrArg (piece :: ·) (ih hrest)

/-- Its numbers are below the length of the payload. -/
theorem lt_of_mem_splitsOf (h : Partition payload pieces) {s : Nat} (hs : s ∈ splitsOf pieces) :
    s < payload.length := by
  obtain ⟨piece, hmem, rfl⟩ := List.mem_map.1 hs
  have hpos := List.length_pos_iff.2 (h.nonempty piece hmem)
  have hle : piece.length ≤ payload.length :=
    h.flatten ▸ List.Sublist.length_le (List.sublist_flatten_of_mem hmem)
  omega

/-! ### Both ways of cutting -/

/-- **Cutting partitions the payload, and reaches every partition of it.** Into any parts but none a
    payload is cut in pieces of one length, the last one possibly shorter, and no more of them than
    asked for. By numbers, however large, it is cut in one piece more than there are numbers at
    most. And any partition comes of some numbers, all of them below the length of the payload. -/
theorem cuts_partition (hparts : 0 < parts) (payload : Bytes) (splits : List Nat) :
    (∃ pieces size, inParts? payload parts = some pieces ∧ Partition payload pieces ∧
      Level size pieces ∧
        pieces.length ≤ parts) ∧
      (Partition payload (bySplits splits payload) ∧
      (bySplits splits payload).length ≤ splits.length + 1) ∧
      ∀ pieces, Partition payload pieces →
        ∃ splits, (∀ s ∈ splits, s < payload.length) ∧ bySplits splits payload = pieces := by
  refine ⟨inParts?_eq hparts payload,
    ⟨partition_bySplits splits payload, length_bySplits_le splits payload⟩, ?_⟩
  intro pieces h
  exact ⟨splitsOf pieces, fun s => lt_of_mem_splitsOf h, bySplits_splitsOf h⟩

/-- Seven bytes in three parts, by the largest word and another number, and a partition of them in
    unlike pieces. -/
theorem cuts_partition_of_seven_bytes :
    inParts? [1, 2, 3, 4, 5, 6, 7] 3 = some [[1, 2, 3], [4, 5, 6], [7]] ∧
      Partition [1, 2, 3, 4, 5, 6, 7] [[1, 2, 3], [4, 5, 6], [7]] ∧
      bySplits [18446744073709551615, 4] [1, 2, 3, 4, 5, 6, 7] = [[1, 2], [3, 4, 5, 6, 7]] ∧
      Partition [1, 2, 3, 4, 5, 6, 7] [[1, 2], [3, 4, 5, 6, 7]] ∧
      ∃ splits, bySplits splits [1, 2, 3, 4, 5, 6, 7] = [[1], [2, 3, 4, 5], [6, 7]] := by
  have hthree : 0 < 3 := by decide
  obtain ⟨⟨pieces, size, hcut, hpartition, _, _⟩, ⟨hsplit, _⟩, hevery⟩ :=
    cuts_partition hthree [1, 2, 3, 4, 5, 6, 7] [18446744073709551615, 4]
  have hpieces : inParts? [1, 2, 3, 4, 5, 6, 7] 3 = some [[1, 2, 3], [4, 5, 6], [7]] := by
    simp [inParts?, ofSize]
  obtain rfl : pieces = [[1, 2, 3], [4, 5, 6], [7]] := Option.some_inj.1 (hcut.symm.trans hpieces)
  obtain ⟨splits, _, hsplits⟩ := hevery [[1], [2, 3, 4, 5], [6, 7]] ⟨by decide, rfl⟩
  exact ⟨hpieces, hpartition, by decide, hsplit, splits, hsplits⟩

end StreamRelay.Pieces
