/-
  StreamRelay/Proofs/Limiter/Pace.lean
  ====================================
  **A limiter keeps to its ceiling, from above and from below.**

  A limiter that is ahead of pace grants a smallest chunk for a quantum. For a ceiling of ten bytes
  a second or more that is what the ceiling allows for a quantum, or less, so the lead stays what it
  was. A smaller ceiling allows less than a byte for a quantum, and a byte is granted all the same:
  such a limiter keeps to ten bytes a second (`released_add_permit_le`).

  A limiter that is behind pace grants all that it is behind. So one that grants less than it was
  asked for lags by no more than what its pause adds (`due_le_released_add_permit`), and rounding
  costs a byte at most, which being ahead by less than a chunk makes up for. Nothing of this adds
  up: each decision starts from the time since the start.

  Main statement: after any sequence of waits, stalls and grants both bounds hold
  (`Paces.within_quantum`).
-/
import StreamRelay.Limiter

namespace StreamRelay

namespace Limiter

variable {l : Limiter} {ceiling : Nat} {opened now : Duration}

/-! ### How far a grant leads -/

/-- The bytes that may have been released by a moment: those for the time so far, at ten a second or
    more, and a quantum's worth. -/
def bound (l : Limiter) (now : Duration) : Nat :=
  max l.ceiling quantaPerSecond * (now - l.opened) / Duration.perSecond + l.minChunk

theorem bound_mono (l : Limiter) {later : Duration} (h : now ≤ later) :
    l.bound now ≤ l.bound later := by
  have hspan : now - l.opened ≤ later - l.opened := Nat.sub_le_sub_right h _
  exact Nat.add_le_add_right (Nat.div_le_div_right (Nat.mul_le_mul_left _ hspan)) _

/-- The smallest chunk is what the ceiling allows for a quantum, if it counts as ten at least. -/
theorem minChunk_eq (l : Limiter) :
    l.minChunk = max l.ceiling quantaPerSecond * quantum / Duration.perSecond := by
  have hquantum : quantum * quantaPerSecond = Duration.perSecond := rfl
  have hpos : 0 < quantum := by decide
  rw [← hquantum, Nat.mul_comm quantum, Nat.mul_div_mul_right _ _ hpos, minChunk]
  unfold quantaPerSecond
  omega

/-- **A quantum makes room for a smallest chunk.** -/
theorem bound_add_minChunk_le (h : l.opened ≤ now) :
    l.bound now + l.minChunk ≤ l.bound (now + quantum) := by
  have hspan : now + quantum - l.opened = now - l.opened + quantum := Nat.sub_add_comm h
  unfold bound
  rw [hspan, Nat.mul_add]
  refine Nat.add_le_add_right ?_ _
  have hsum : max l.ceiling quantaPerSecond * (now - l.opened) / Duration.perSecond +
      max l.ceiling quantaPerSecond * quantum / Duration.perSecond ≤
        (max l.ceiling quantaPerSecond * (now - l.opened) +
          max l.ceiling quantaPerSecond * quantum) / Duration.perSecond :=
    Nat.div_add_div_le_add_div
  rwa [← l.minChunk_eq] at hsum

/-- A count that was cut does not make a limiter allow more than its ceiling. -/
theorem due_le (l : Limiter) (span : Duration) :
    l.due span ≤ max l.ceiling quantaPerSecond * span / Duration.perSecond :=
  Nat.le_trans (Nat.min_le_left _ _)
    (Nat.div_le_div_right (Nat.mul_le_mul_right _ (Nat.le_max_left _ _)))

theorem due_elapsed_le (l : Limiter) (now : Duration) : l.due (l.elapsed now) ≤ l.bound now := by
  unfold elapsed
  split
  · -- a limiter that was opened just now counts as open for a quantum
    refine Nat.le_trans (l.due_le quantum) ?_
    rw [← l.minChunk_eq]
    exact Nat.le_add_left _ _
  · exact Nat.le_trans (l.due_le _) (Nat.le_add_right _ _)

theorem grant_of_pos (l : Limiter) (now : Duration) (hceiling : 0 < l.ceiling) {available : Nat}
    (h : 0 < available) : l.grant now available = l.grantOf (l.allowance now) available :=
  if_neg (by omega)

/-- **No grant leads past the bound**, if the pause that comes with it is made. -/
theorem released_add_permit_le (hceiling : 0 < l.ceiling) (hopened : l.opened ≤ now)
    (hpace : l.released ≤ l.bound now) (available : Nat) :
    l.released + (l.grant now available).permit ≤
      l.bound (now + (l.grant now available).pause) := by
  rcases Nat.eq_zero_or_pos available with rfl | hsome
  · have hidle : l.grant now 0 = ⟨0, 0⟩ := if_pos (Or.inr rfl)
    rw [hidle]
    exact hpace
  · rw [l.grant_of_pos now hceiling hsome, grantOf]
    by_cases hahead : l.allowance now < l.minChunk
    · -- ahead of pace: the pause makes room for the chunk that is granted
      rw [if_pos hahead]
      calc l.released + min l.minChunk available
          ≤ l.bound now + l.minChunk := Nat.add_le_add hpace (Nat.min_le_left _ _)
        _ ≤ l.bound (now + quantum) := bound_add_minChunk_le hopened
    · rw [if_neg hahead]
      have hbehind : 0 < l.due (l.elapsed now) - l.released :=
        Nat.lt_of_lt_of_le l.minChunk_pos (Nat.le_of_not_lt hahead)
      calc l.released + min (l.allowance now) available
          ≤ l.released + (l.due (l.elapsed now) - l.released) :=
            Nat.add_le_add_left (Nat.min_le_left _ _) _
        _ = l.due (l.elapsed now) := Nat.add_sub_of_le (by omega)
        _ ≤ l.bound now := l.due_elapsed_le now

/-! ### How far a grant lags -/

theorem minChunk_of_ten_le (hceiling : 10 ≤ l.ceiling) : l.minChunk = l.ceiling / 10 := by
  unfold minChunk quantaPerSecond
  omega

theorem due_eq (l : Limiter) (span : Duration) :
    l.due span = min (l.ceiling * span / Duration.perSecond) (countLimit - 1) := rfl

/-- A quantum adds a smallest chunk to what is allowed, and a byte of rounding at most. -/
theorem due_add_quantum_le (hceiling : 10 ≤ l.ceiling) (span : Duration) :
    l.due (span + quantum) ≤ l.due span + l.minChunk + 1 := by
  have hsecond : Duration.perSecond = 1000000000 := rfl
  have hquantum : quantum = 100000000 := rfl
  rw [due_eq, due_eq, minChunk_of_ten_le hceiling, Nat.mul_add, hquantum, hsecond]
  omega

theorem due_le_elapsed (l : Limiter) (now : Duration) :
    l.due (now - l.opened) ≤ l.due (l.elapsed now) := by
  unfold elapsed
  split
  · next hzero =>
    rw [hzero, due, Nat.mul_zero]
    exact Nat.zero_le _
  · exact Nat.le_refl _

/-- **A grant of less than is available leaves the limiter no more than a chunk behind**, if all of
    it is released. -/
theorem due_le_released_add_permit (hceiling : 10 ≤ l.ceiling) (hopened : l.opened ≤ now)
    {available : Nat} (hpart : (l.grant now available).permit < available) :
    l.due (now + (l.grant now available).pause - l.opened) ≤
      l.released + (l.grant now available).permit + l.ceiling / 10 := by
  have hchunk := minChunk_of_ten_le hceiling
  have hnow := l.due_le_elapsed now
  rw [l.grant_of_pos now (by omega) (Nat.zero_lt_of_lt hpart), grantOf] at hpart ⊢
  by_cases hahead : l.allowance now < l.minChunk
  · rw [if_pos hahead] at hpart ⊢
    have hspan : now + quantum - l.opened = now - l.opened + quantum := Nat.sub_add_comm hopened
    have hadded := due_add_quantum_le hceiling (now - l.opened)
    -- the limiter is ahead by less than a chunk: the byte that rounding may cost is made up for
    have hbehind : l.due (l.elapsed now) + 1 ≤ l.released + l.minChunk := by
      unfold allowance at hahead
      omega
    dsimp only at hpart ⊢
    rw [hspan]
    omega
  · rw [if_neg hahead] at hpart ⊢
    have hall : l.due (l.elapsed now) ≤ l.released + l.allowance now := by
      unfold allowance
      omega
    dsimp only at hpart ⊢
    rw [Nat.add_zero]
    omega

/-! ### Any sequence of calls -/

/-- A limiter that was started at `opened` has come to be at some moment: time passed, it stalled,
    or it granted something and no more than that was released. -/
inductive Paces (ceiling : Nat) (opened : Duration) : Limiter → Duration → Prop where
  | start : Paces ceiling opened (.start ceiling opened) opened
  | advance {l : Limiter} {now : Duration} (h : Paces ceiling opened l now) (span : Duration) :
      Paces ceiling opened l (now + span)
  | stall {l : Limiter} {now : Duration} (h : Paces ceiling opened l now) :
      Paces ceiling opened l (now + quantum)
  | granted {l l' : Limiter} {now : Duration} {available bytes : Nat} {grant : Grant}
      (h : Paces ceiling opened l now) (hask : l.ask? now available = .ok grant)
      (hbytes : bytes ≤ grant.permit) (hrecord : l.record? bytes = .ok l') :
      Paces ceiling opened l' (now + grant.pause)

/-- No call changes the ceiling or the start, time does not run backwards, and what was released can
    be counted. -/
theorem Paces.frame (h : Paces ceiling opened l now) :
    l.ceiling = ceiling ∧ l.opened = opened ∧ opened ≤ now ∧ l.released < countLimit := by
  induction h with
  | start => exact ⟨rfl, rfl, Nat.le_refl _, (by decide : 0 < countLimit)⟩
  | advance _ span ih =>
    exact ⟨ih.1, ih.2.1, Nat.le_trans ih.2.2.1 (Nat.le_add_right _ _), ih.2.2.2⟩
  | stall _ ih => exact ⟨ih.1, ih.2.1, Nat.le_trans ih.2.2.1 (Nat.le_add_right _ _), ih.2.2.2⟩
  | granted _ _ _ hrecord ih =>
    obtain ⟨rfl, hfits⟩ := record?_ok hrecord
    exact ⟨ih.1, ih.2.1, Nat.le_trans ih.2.2.1 (Nat.le_add_right _ _), hfits⟩

theorem Paces.released_le_bound (hceiling : 0 < ceiling) (h : Paces ceiling opened l now) :
    l.released ≤ l.bound now := by
  induction h with
  | start => exact Nat.zero_le _
  | advance _ span ih => exact Nat.le_trans ih (bound_mono _ (Nat.le_add_right _ _))
  | stall _ ih => exact Nat.le_trans ih (bound_mono _ (Nat.le_add_right _ _))
  | @granted l l' now available bytes grant h hask hbytes hrecord ih =>
    obtain ⟨rfl, rfl, hopened, -⟩ := h.frame
    obtain ⟨rfl, -⟩ := record?_ok hrecord
    obtain ⟨rfl, -⟩ := ask?_ok hask
    calc l.released + bytes
        ≤ l.released + (l.grant now available).permit := Nat.add_le_add_left hbytes _
      _ ≤ l.bound (now + (l.grant now available).pause) :=
          released_add_permit_le hceiling hopened ih available

theorem projected?_of_lt {span : Duration} (h : l.ceiling * span < productLimit) :
    l.projected? span = .ok (l.due span) := if_pos h

/-- **Pacing stays within a quantum's worth on both sides.** For a ceiling of ten bytes a second or
    more, however the clock is advanced and whatever part of each grant is released: no more than a
    quantum's worth beyond the projection is ever released; and a grant of less than is available,
    once all of it is released, leaves the projection no more than a quantum's worth ahead. This
    holds for as long as the moment, and the product of ceiling and time, can be kept. -/
theorem Paces.within_quantum (hceiling : 10 ≤ ceiling) (h : Paces ceiling opened l now) :
    (ceiling * (now - opened) < productLimit →
        ∃ projection, l.projected? (now - opened) = .ok projection ∧
          l.released ≤ projection + ceiling / 10) ∧
      ∀ available, now < Duration.horizon → ceiling * l.elapsed now < productLimit →
        ∃ grant, l.ask? now available = .ok grant ∧
          (grant.permit < available → ceiling * (now + grant.pause - opened) < productLimit →
            ∃ projection, l.projected? (now + grant.pause - opened) = .ok projection ∧
              projection ≤ l.released + grant.permit + ceiling / 10) := by
  have hlead := h.released_le_bound (by omega)
  obtain ⟨rfl, rfl, hopened, hcount⟩ := h.frame
  constructor
  · intro hproduct
    refine ⟨_, projected?_of_lt hproduct, ?_⟩
    have hslow : max l.ceiling quantaPerSecond = l.ceiling := Nat.max_eq_left hceiling
    rw [bound, minChunk_of_ten_le hceiling, hslow] at hlead
    rw [due_eq]
    omega
  · intro available hsoon hfits
    have hreckons : l.Reckons now available := Or.inr (Or.inr ⟨hsoon, hfits⟩)
    refine ⟨l.grant now available, hreckons.ask?_eq, fun hpart hproduct => ?_⟩
    exact ⟨_, projected?_of_lt hproduct, due_le_released_add_permit hceiling hopened hpart⟩

/-- A ceiling of 25 bytes a second, 7 bytes on offer after 130 milliseconds of which 2 are released,
    and 7 again: the limiter has 1 byte left to grant without a pause, and grants 2 after one. -/
theorem Paces.within_quantum_of_partial_release :
    ∃ l grant, Paces 25 0 l 130000000 ∧ l.released = 2 ∧ l.ask? 130000000 7 = .ok grant ∧
      grant = ⟨quantum, 2⟩ ∧ l.projected? 130000000 = .ok 3 ∧ 2 ≤ 3 + 25 / 10 ∧
      l.projected? 230000000 = .ok 5 ∧ 5 ≤ 2 + 2 + 25 / 10 := by
  have hfirst : Limiter.ask? (.start 25 0) 130000000 7 = .ok ⟨0, 3⟩ := by rfl
  have hpaces : Paces 25 0 ⟨25, 0, 2⟩ 130000000 :=
    (Paces.start.advance 130000000).granted hfirst (by decide : 2 ≤ 3) rfl
  obtain ⟨hlead, hlag⟩ := hpaces.within_quantum (by decide)
  obtain ⟨_, hnow, hlead⟩ := hlead (by decide)
  obtain ⟨grant, hask, hlag⟩ := hlag 7 (by decide) (by decide)
  have hgrant : grant = ⟨quantum, 2⟩ := (ask?_ok hask).1
  subst hgrant
  obtain ⟨_, hlater, hlag⟩ := hlag (by decide) (by decide)
  cases hnow
  cases hlater
  exact ⟨_, _, hpaces, rfl, hask, rfl, rfl, hlead, rfl, hlag⟩

end Limiter

end StreamRelay
