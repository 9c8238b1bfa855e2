/-
  StreamRelay/Proofs/Limiter/Projection.lean
  ==========================================
  **How far a limiter can reckon.**

  What a ceiling allows for a span is their product in seconds, as far as it can be counted. The
  limiter forms the product in 128 bits. For as long as it fits, a projection is what the ceiling
  allows; it grows with the span, and does not lose by being cut into parts, up to the largest
  count. Every product with a span of 2⁶⁴ nanoseconds, more than 584 years, or less fits; and so
  does that of every span with a ceiling of up to 2⁶⁴ / 10⁹ bytes a second. Beyond that there is no
  projection, and no grant that depends on one.

  Nothing else in a grant can leave its word: it fails if the product or the moment does, and only
  then.

  Main statement: `projected_reckoned`.
-/
import StreamRelay.Proofs.Limiter.Pace

namespace StreamRelay

namespace Limiter

variable {l : Limiter} {span later : Duration}

/-! ### What is allowed -/

def mostBytes : Nat := countLimit - 1

theorem due_mono (l : Limiter) (hspan : span ≤ later) : l.due span ≤ l.due later := by
  have hproduct : l.ceiling * span / Duration.perSecond ≤ l.ceiling * later / Duration.perSecond :=
    Nat.div_le_div_right (Nat.mul_le_mul_left _ hspan)
  rw [due_eq, due_eq]
  omega

theorem due_add_due_le (l : Limiter) (span more : Duration) :
    min (l.due span + l.due more) mostBytes ≤ l.due (span + more) := by
  have hsum : l.ceiling * span / Duration.perSecond + l.ceiling * more / Duration.perSecond ≤
      (l.ceiling * span + l.ceiling * more) / Duration.perSecond := Nat.div_add_div_le_add_div
  rw [due_eq, due_eq, due_eq, mostBytes, Nat.mul_add]
  omega

/-! ### When the product fits -/

/-- The product of the ceiling and a span fits in 128 bits. -/
def Fits (l : Limiter) (span : Duration) : Prop := l.ceiling * span < productLimit

instance (l : Limiter) (span : Duration) : Decidable (l.Fits span) :=
  inferInstanceAs (Decidable (l.ceiling * span < productLimit))

theorem Fits.mono (h : l.Fits later) (hspan : span ≤ later) : l.Fits span :=
  Nat.lt_of_le_of_lt (Nat.mul_le_mul_left _ hspan) h

theorem fits_of_span (hceiling : l.ceiling < countLimit) (hspan : span ≤ Nat.pow 2 64) :
    l.Fits span :=
  calc l.ceiling * span
      ≤ l.ceiling * Nat.pow 2 64 := Nat.mul_le_mul_left _ hspan
    _ < countLimit * Nat.pow 2 64 := Nat.mul_lt_mul_of_pos_right hceiling (by decide)

theorem fits_of_ceiling (hceiling : l.ceiling ≤ Nat.pow 2 64 / Duration.perSecond)
    (hspan : span < Duration.limit) : l.Fits span :=
  calc l.ceiling * span
      ≤ Nat.pow 2 64 / Duration.perSecond * Duration.limit :=
        Nat.mul_le_mul hceiling (Nat.le_of_lt hspan)
    _ < productLimit := by decide

theorem projected?_eq_ok_iff {bytes : Nat} :
    l.projected? span = .ok bytes ↔ l.Fits span ∧ bytes = l.due span := by
  unfold projected? Fits
  split
  · next hfits =>
    rw [Except.ok.injEq, eq_comm]
    exact ⟨fun h => ⟨hfits, h⟩, fun h => h.2⟩
  · next hlarge => exact iff_of_false (by rintro ⟨⟩) fun h => hlarge h.1

/-! ### What a grant is made of -/

theorem due_lt (l : Limiter) (span : Duration) : l.due span < countLimit := clampCount_lt _

theorem minChunk_lt (hceiling : l.ceiling < countLimit) : l.minChunk < countLimit := by
  have hword : countLimit = 18446744073709551616 := rfl
  unfold minChunk quantaPerSecond
  omega

theorem elapsed_lt {now : Duration} (hnow : now - l.opened < Duration.limit) :
    l.elapsed now < Duration.limit := by
  unfold elapsed
  split
  · decide
  · exact hnow

theorem reckons_of_fits {now : Duration} (hsoon : now < Duration.horizon)
    (hfits : l.Fits (l.elapsed now)) (available : Nat) : l.Reckons now available :=
  Or.inr (Or.inr ⟨hsoon, hfits⟩)

/-! ### Exactly when -/

/-- **A projection is exact for as long as the product of ceiling and span fits in 128 bits.** For
    every 64-bit ceiling and every span that can be represented: there is a projection exactly if
    the product fits, and it is what the ceiling allows. The product fits for every ceiling if the
    span is no longer than 2⁶⁴ nanoseconds, and for every span if the ceiling is no higher than
    2⁶⁴ / 10⁹. A span that is no longer has a projection too, and no greater one; the parts of a
    span have projections that come to no more than that of the whole, up to the largest count. And
    whatever is available and was released, a grant that depends on the time is given exactly if the
    moment and the product can be kept; every number that it is made of fits in its word, and no
    more is granted than is available. -/
theorem projected_reckoned (hceiling : l.ceiling < countLimit) :
    (∀ span < Duration.limit, ∀ bytes, l.projected? span = .ok bytes ↔
        l.ceiling * span < productLimit ∧
          bytes = min (l.ceiling * span / Duration.perSecond) mostBytes) ∧
      (∀ span < Duration.limit,
        span ≤ Nat.pow 2 64 ∨ l.ceiling ≤ Nat.pow 2 64 / Duration.perSecond →
          l.ceiling * span < productLimit) ∧
      (∀ span later most, span ≤ later → l.projected? later = .ok most →
        ∃ bytes, l.projected? span = .ok bytes ∧ bytes ≤ most) ∧
      (∀ span more whole, l.projected? (span + more) = .ok whole →
        ∃ first second, l.projected? span = .ok first ∧ l.projected? more = .ok second ∧
          min (first + second) mostBytes ≤ whole) ∧
      ∀ now available, 0 < l.ceiling → 0 < available → now - l.opened < Duration.limit →
        ((∃ grant, l.ask? now available = .ok grant) ↔
            now < Duration.horizon ∧ l.Fits (l.elapsed now)) ∧
          l.elapsed now < Duration.limit ∧ l.allowance now < countLimit ∧
          l.minChunk < countLimit ∧
          ∀ grant, l.ask? now available = .ok grant → grant.permit ≤ available := by
  refine ⟨?_, ?_, ?_, ?_, ?_⟩
  · intro span hspan bytes
    exact projected?_eq_ok_iff
  · rintro span hspan (hshort | hlow)
    · exact fits_of_span hceiling hshort
    · exact fits_of_ceiling hlow hspan
  · intro span later most hspan hlater
    obtain ⟨hfits, rfl⟩ := projected?_eq_ok_iff.1 hlater
    exact ⟨_, projected?_of_lt (hfits.mono hspan), l.due_mono hspan⟩
  · intro span more whole hwhole
    obtain ⟨hfits, rfl⟩ := projected?_eq_ok_iff.1 hwhole
    have hfirst : l.Fits span := hfits.mono (Nat.le_add_right _ _)
    have hsecond : l.Fits more := hfits.mono (Nat.le_add_left _ _)
    exact ⟨_, _, projected?_of_lt hfirst, projected?_of_lt hsecond, l.due_add_due_le span more⟩
  · intro now available hpaced hsome hnow
    refine ⟨⟨?_, ?_⟩, elapsed_lt hnow, ?_, minChunk_lt hceiling, ?_⟩
    · -- a grant needs no number only without a ceiling or with nothing available
      rintro ⟨grant, hask⟩
      rcases (ask?_ok hask).2 with hzero | hzero | hfits
      · exact absurd hzero (Nat.ne_of_gt hpaced)
      · exact absurd hzero (Nat.ne_of_gt hsome)
      · exact hfits
    · rintro ⟨hsoon, hfits⟩
      exact ⟨_, (reckons_of_fits hsoon hfits available).ask?_eq⟩
    · exact Nat.lt_of_le_of_lt (Nat.sub_le _ _) (l.due_lt _)
    · intro grant hask
      rw [(ask?_ok hask).1]
      exact l.permit_grant_le now available

/-- The highest ceiling, asked after 2⁶⁴ nanoseconds and after twice as long: the first product
    fits, with nothing to spare, and the second does not. -/
theorem projected_reckoned_of_highest_ceiling :
    projected? ⟨18446744073709551615, 0, 7⟩ 18446744073709551616 = .ok mostBytes ∧
      (∃ grant, ask? ⟨18446744073709551615, 0, 7⟩ 18446744073709551616 100 = .ok grant) ∧
      ¬∃ grant, ask? ⟨18446744073709551615, 0, 7⟩ 36893488147419103232 100 = .ok grant := by
  obtain ⟨hprojected, hfits, -, -, hask⟩ :=
    projected_reckoned (l := ⟨18446744073709551615, 0, 7⟩) (by decide)
  have hfit := hfits 18446744073709551616 (by decide) (Or.inl (by decide))
  refine ⟨?_, ?_, ?_⟩
  · exact (hprojected _ (by decide) _).2 ⟨hfit, by decide⟩
  · exact (hask 18446744073709551616 100 (by decide) (by decide) (by decide)).1.2
      ⟨by decide, hfit⟩
  · intro hgrant
    have hdoubled := (hask 36893488147419103232 100 (by decide) (by decide) (by decide)).1.1 hgrant
    exact absurd hdoubled.2 (by decide)

/-- **A product that does not fit leaves no projection.** With a ceiling of 2⁶³ bytes a second, more
    than can be counted is allowed after 2⁶⁵ nanoseconds, and projected a nanosecond before; but
    then the product is 2¹²⁸, and asking for a projection or a grant fails. -/
theorem exists_span_without_projection :
    ∃ (l : Limiter) (span : Duration), l.ceiling < countLimit ∧ span < Duration.limit ∧
      min (l.ceiling * span / Duration.perSecond) mostBytes = mostBytes ∧
      l.projected? (span - 1) = .ok mostBytes ∧ l.projected? span = .error .product ∧
      l.ask? span 1 = .error .product :=
  ⟨⟨9223372036854775808, 0, 0⟩, 36893488147419103232, by decide, by decide, by decide, by rfl,
    by rfl, by rfl⟩

end Limiter

end StreamRelay
