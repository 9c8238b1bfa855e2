/-
  StreamRelay/Proofs/Relay/Pacing.lean
  ====================================
  **How far output runs ahead of its ceiling.**

  What a grant can add (`Limiter.released_add_permit_le`) is carried through the turns of a relay. A
  ceiling of less than ten bytes a second allows less than a byte for a quantum, and a byte is
  granted all the same: such a limiter keeps to ten bytes a second.

  Main statement: at every moment of a run under a limiter at most a quantum's worth more was
  released than ceiling and time allow, where the ceiling counts as ten at least
  (`released_within_pace`).
-/
import StreamRelay.Proofs.Limiter.Pace
import StreamRelay.Proofs.Relay.Run

namespace StreamRelay

namespace Relay

variable {o : Options} {r r' r₁ : Relay} {input released : Bytes}

/-! ### Whole turns -/

/-- A relay whose limiter knows what was released since the clock was started, and has let no more
    than that pass. -/
structure OnPace (o : Options) (r : Relay) : Prop where
  limiter : r.limiter = some ⟨o.throttle, 0, r.bytesReleased⟩
  within : r.bytesReleased ≤ Limiter.bound ⟨o.throttle, 0, r.bytesReleased⟩ r.clock

theorem filled_clock_le (hfilled : r.filled = .ok r₁) : r.clock ≤ r₁.clock := by
  have hfilling := r.filling
  rw [hfilled] at hfilling
  cases hfilling with
  | idle _ => exact Nat.le_refl _
  | received _ _ _ _ _ _ _ => exact Nat.le_add_right _ _

/-- Neither reading nor vouching releases anything, and time goes on. -/
theorem OnPace.vouched (h : OnPace o r) (hvalidated : r.validated ≤ r.buffer.length)
    (hfilled : r.filled = .ok r₁) (hvalidate : r₁.validate = .ok r') : OnPace o r' := by
  have hlater := filled_clock_le hfilled
  obtain ⟨⟨buffer, source, clock, bytesRead, ended, journal, rfl⟩, _⟩ :=
    filled_frame hvalidated hfilled
  obtain ⟨buffer', decoder, validated, rfl, _⟩ := validate_frame hvalidate
  exact ⟨h.limiter, Nat.le_trans h.within (Limiter.bound_mono _ hlater)⟩

/-- **What is granted may be released**, once the pause for it is over. -/
theorem OnPace.granted (h : OnPace o r) (hthrottle : 0 < o.throttle) :
    r.bytesReleased + r.granted.permit ≤
      Limiter.bound ⟨o.throttle, 0, r.bytesReleased⟩ (r.clock + r.granted.pause) := by
  rw [Relay.granted, h.limiter]
  exact Limiter.released_add_permit_le (l := ⟨o.throttle, 0, r.bytesReleased⟩) hthrottle
    (Nat.zero_le _) h.within
    r.releasable

theorem OnPace.serve (h : OnPace o r) (hthrottle : 0 < o.throttle)
    (hserve : r.releaseReady = .ok r') : OnPace o r' := by
  have hserving := r.serving
  rw [hserve] at hserving
  cases hserving with
  | idle _ => exact h
  | @served journal journal' _ n _ hpermit _ _ hrelease _ =>
    have hgranted := h.granted hthrottle
    cases hrelease with
    | released _ _ _ _ _ _ =>
      have hused :=
        portion_used_le { r with clock := r.clock + r.granted.pause, journal } r.granted.permit
      refine ⟨?_, ?_⟩
      · change r.paced _ = some ⟨o.throttle, 0, r.bytesReleased + _⟩
        rw [paced, h.limiter]
        rfl
      · change r.bytesReleased + _ ≤
          Limiter.bound ⟨o.throttle, 0, r.bytesReleased⟩ (r.clock + r.granted.pause + r.stall _)
        refine Nat.le_trans (Nat.add_le_add_left hused _) (Nat.le_trans hgranted ?_)
        exact Limiter.bound_mono _ (Nat.le_add_right _ _)

theorem OnPace.turn (h : OnPace o r) (hthrottle : 0 < o.throttle)
    (hvalidated : r.validated ≤ r.buffer.length) (hturn : r.turn = .ok r') : OnPace o r' := by
  obtain ⟨r₁, r₂, r₃, hfilled, hvalidate, hserve, htick⟩ := turn_ok hturn
  have hserved := (h.vouched hvalidated hfilled hvalidate).serve hthrottle hserve
  obtain ⟨_, _, _, rfl, _⟩ := tick_ok htick
  exact ⟨hserved.limiter, hserved.within⟩

/-! ### Whole runs -/

variable {options : Options} {source : Source} {sinks : Sinks} {disk : Disk} {machine : Machine}
  {first mid : Relay}

theorem Starts.onPace (h : Starts options source sinks disk machine first)
    (hthrottle : 0 < options.throttle) :
    OnPace options first := by
  obtain ⟨warnings, buffer, progress, bytes, journal, _, _, _, rfl⟩ := h.eq
  exact ⟨if_neg (Nat.ne_of_gt hthrottle), Nat.zero_le _⟩

theorem Reaches.onPace (hreaches : Reaches first input mid) (hledger : Ledger o [] [] first)
    (hstart : OnPace options first) (hthrottle : 0 < options.throttle) : OnPace options mid := by
  have hboth : (∃ released, Ledger o input released mid) ∧ OnPace options mid := by
    refine hreaches.preserves (P := fun input r => (∃ released, Ledger o input released r) ∧
      OnPace options r) ?_
      ⟨⟨[], hledger⟩, hstart⟩
    rintro input r r' ⟨⟨released, hledger⟩, hpace⟩ hbusy hturn
    obtain ⟨block, hledger'⟩ := hledger.turn hbusy hturn
    exact ⟨⟨_, hledger'⟩, hpace.turn hthrottle hledger.validated_le hturn⟩
  exact hboth.2

/-- **Output never runs ahead of its ceiling by more than a quantum's worth**, if a ceiling below
    ten bytes a second counts as ten: neither between two turns, nor when a turn gets to release
    what it was granted, whether every sink takes it or not. -/
theorem released_within_pace (hthrottle : 0 < options.throttle)
    (hstarts : Starts options source sinks disk machine first)
    (hreaches : Reaches first input mid) :
    mid.bytesReleased ≤
        max options.throttle 10 * mid.clock / Duration.perSecond + max (options.throttle / 10) 1 ∧
      ∀ r₁ r₂, mid.filled = .ok r₁ → r₁.validate = .ok r₂ →
        r₂.bytesReleased + r₂.granted.permit ≤
          max options.throttle 10 * (r₂.clock + r₂.granted.pause) / Duration.perSecond +
            max (options.throttle / 10) 1 := by
  have hpace := hstarts.onPace hthrottle
  obtain ⟨_, hmid⟩ := hreaches.ledger hstarts.ledger
  have hpaced := hreaches.onPace hstarts.ledger hpace hthrottle
  refine ⟨hpaced.within, fun r₁ r₂ hfilled hvalidate => ?_⟩
  exact (hpaced.vouched hmid.validated_le hfilled hvalidate).granted hthrottle

/-- Two turns under a ceiling of 25 bytes a second: a chunk at once and another after a pause. -/
theorem released_within_pace_of_two_turns :
    ∃ first mid input,
      Starts { throttle := 25, passThrough := true } (.feed ⟨[], [.bytes [1, 2, 3, 4, 5, 6, 7]]⟩ [])
        ⟨some .unlimited, [], false⟩ (Disk.ofFiles []) ⟨1048576, []⟩ first ∧
      Reaches first input mid ∧ mid.bytesReleased = 4 ∧
      mid.clock = 100000000 ∧ mid.bytesReleased ≤ 25 * mid.clock / Duration.perSecond + 2 := by
  have hcourse :
      (prepare { throttle := 25, passThrough := true }
        (.feed ⟨[], [.bytes [1, 2, 3, 4, 5, 6, 7]]⟩ []) ⟨some .unlimited, [], false⟩
        (Disk.ofFiles []) ⟨1048576, []⟩).toOption.any fun r => r.begin.toOption.any fun first =>
        first.turn.toOption.any fun second => second.turn.toOption.any fun mid =>
          !first.isDone && !second.isDone && mid.bytesReleased == 4 && mid.clock == 100000000 := by
    decide +kernel
  obtain ⟨r, hprepare, hcourse⟩ := exists_ok hcourse
  obtain ⟨first, hbegin, hcourse⟩ := exists_ok hcourse
  obtain ⟨second, hturn, hcourse⟩ := exists_ok hcourse
  obtain ⟨mid, hturn', hcourse⟩ := exists_ok hcourse
  simp only [Bool.and_eq_true, Bool.not_eq_true', beq_iff_eq] at hcourse
  obtain ⟨⟨⟨hbusy, hbusy'⟩, hreleased⟩, hclock⟩ := hcourse
  have hstarts : Starts { throttle := 25, passThrough := true }
      (.feed ⟨[], [.bytes [1, 2, 3, 4, 5, 6, 7]]⟩ [])
      ⟨some .unlimited, [], false⟩ (Disk.ofFiles []) ⟨1048576, []⟩ first := ⟨r, hprepare, hbegin⟩
  have hreaches := (Reaches.refl.turn hbusy hturn).turn hbusy' hturn'
  have hpace := (released_within_pace (by decide) hstarts hreaches).1
  exact ⟨first, mid, _, hstarts, hreaches, hreleased, hclock, hpace⟩

/-- A ceiling of one byte a second lets two bytes out in a fifth of a second. -/
theorem exists_run_ahead_of_small_ceiling :
    ∃ elapsed digest,
      (run { throttle := 1, passThrough := true } (.feed ⟨[], [.bytes [97, 98]]⟩ [])
          ⟨some .unlimited, [], false⟩ (Disk.ofFiles []) ⟨1048576, []⟩).map (·.result) =
        some (.ok ⟨2, 2, elapsed, digest⟩) ∧
      1 * elapsed / Duration.perSecond + max (1 / 10) 1 < 2 :=
  ⟨200000000, none, by decide +kernel, by decide⟩

end Relay

end StreamRelay
