/-
  StreamRelay/Proofs/Relay/Liveness.lean
  ======================================
  **Every run comes to an end, and no turn is wasted.**

  Two sides withhold bytes: a decoder those that may yet become an escape, an encoder those that may
  yet become a marker. Neither can hold up a relay. A full buffer holds more bytes than a decoder
  ever withholds, so there is always something to release (`Ledger.validate_full`). A turn that
  releases nothing takes an answer from the source or lets time pass for a limiter that lags behind,
  and of both there is only so much (`Turns.idle_le`).

  Main statement: a run comes to an end within a number of turns that is known at its start, and
  unless a number is too large to be kept it ends in a report or a failure (`run_terminates`).
-/
import StreamRelay.Proofs.Relay.Timing

namespace StreamRelay

open Framing

namespace Relay

variable {o : Options} {r r' mid : Relay} {feed : Feed} {waits : List WaitStep}
  {input released : Bytes} {n : Nat}

/-! ### Full buffers -/

/-- What a decoder has seen already it does not refuse later, as long as the input may go on. -/
theorem Ledger.validate_again (h : Ledger o input released r) (hended : r.ended = false) :
    ∃ r', r.validate = .ok r' := by
  rcases hvalidate : r.validate with halt | r'
  · exfalso
    have hunseen : Unseen input [] released r :=
      h.vouched.unseen h.validated_le rfl rfl (List.append_nil _).symm
    cases hunseen with
    | plain hdecoder _ =>
      rw [validate, hdecoder] at hvalidate
      cases hvalidate
    | framed hlive hdecoder _ hview hvalidated =>
      have hsays := says_window hlive hview hvalidated
      unfold validate at hvalidate
      simp only [hdecoder] at hvalidate
      generalize (Reader.start.run input).decoder.decode
        (r.buffer.viewFrom r.validated) r.ended = answer at hvalidate hsays
      rcases answer with ⟨d, e | decoded⟩
      · obtain ⟨payload, hrefused⟩ := hsays.2 hended
        rw [List.append_nil] at hrefused
        rw [hrefused] at hlive
        exact hlive
      · cases hvalidate
  · exact ⟨r', rfl⟩

/-- **With a full buffer there are bytes to release, and some of them are granted.** -/
theorem Ledger.validate_full (h : Ledger o input released r) (hpaced : Paced o r)
    (hended : r.ended = false) (hfull : r.buffer.isFull) (hall : r.options.readAll = false) :
    r.filled = .ok r ∧ ∃ r', r.validate = .ok r' ∧ 0 < r'.releasable ∧ 0 < r'.granted.permit := by
  have hfilled : r.filled = .ok r := by
    rw [filled, if_neg (by simp [hended]), fill, if_pos hfull, if_neg (by simp [hall])]
  have hbusy : r.isDone = false := by
    rw [isDone, hended]
    rfl
  obtain ⟨r', hvalidate⟩ := h.validate_again hended
  have hsome := (h.releasable_of_idle hpaced hbusy hfilled hvalidate (Or.inr ⟨hfull, hall⟩)).1
  exact ⟨hfilled, r', hvalidate, hsome, granted_permit_pos hsome⟩

/-! ### Counting turns -/

inductive Turns (r : Relay) : Nat → Relay → Prop
  | none : Turns r 0 r
  | turn {n : Nat} {mid r' : Relay} (hturns : Turns r n mid) (hbusy : mid.isDone = false)
      (hturn : mid.turn = .ok r') :
      Turns r (n + 1) r'

structure Fed (feed : Feed) (waits : List WaitStep) (o : Options) (r : Relay) : Prop where
  ledger : ∃ input released, Ledger o input released r
  paced : Paced o r
  covers : (Supply.ofFeed feed waits).covers r.source

theorem Fed.turn (h : Fed feed waits o r) (hbusy : r.isDone = false) (hturn : r.turn = .ok r') :
    Fed feed waits o r' ∧ Advances r r' := by
  obtain ⟨input, released, hledger⟩ := h.ledger
  have hspends := hledger.turn_budget h.paced h.covers trivial hbusy hturn trivial
  obtain ⟨block, hledger'⟩ := hledger.turn hbusy hturn
  exact ⟨⟨⟨_, _, hledger'⟩, hspends.paced, hspends.covers⟩, hspends.advances⟩

theorem Turns.fed (h : Turns r n r') (hfed : Fed feed waits o r) : Fed feed waits o r' := by
  induction h with
  | none => exact hfed
  | turn _ hbusy hturn ih => exact (ih.turn hbusy hturn).1

theorem Turns.released_le (h : Turns r n r') (hfed : Fed feed waits o r) :
    r.bytesReleased ≤ r'.bytesReleased := by
  induction h with
  | none => exact Nat.le_refl _
  | turn hturns hbusy hturn ih =>
    exact Nat.le_trans ih ((hturns.fed hfed).turn hbusy hturn).2.released_le

/-- **Turns come out of the budget.** -/
theorem Turns.budget_le (h : Turns r n r') (hfed : Fed feed waits o r) :
    n + r'.budget ≤ r.budget := by
  induction h with
  | none => exact Nat.le_of_eq (Nat.zero_add _)
  | turn hturns hbusy hturn ih =>
    have hless := ((hturns.fed hfed).turn hbusy hturn).2.budget_lt
    omega

/-- **A bound on the turns to come before a byte is released**: the answers of the source that are
    yet to be taken, and the quanta until a limiter that lets a byte pass in a second grants more
    than is ever withheld. -/
def patience (r : Relay) : Nat := r.toRead + (10 * (r.bytesReleased + 10) - r.quanta)

theorem Advances.patience_lt (h : Advances r r') (hsame : r'.bytesReleased = r.bytesReleased) :
    r'.patience < r.patience := by
  obtain ⟨hread, _, _, hquanta, hgains⟩ := h
  unfold patience
  rw [hsame]
  rcases hgains with hgain | hgain | ⟨hlags, hgain⟩ <;> omega

/-- **Turns that release nothing are soon over.** -/
theorem Turns.idle_le (h : Turns r n r') (hfed : Fed feed waits o r)
    (hsame : r'.bytesReleased = r.bytesReleased) : n + r'.patience ≤ r.patience := by
  induction h with
  | none => exact Nat.le_of_eq (Nat.zero_add _)
  | @turn n mid r' hturns hbusy hturn ih =>
    have hadvances := ((hturns.fed hfed).turn hbusy hturn).2
    -- what was released never gets less, so the turns before released nothing either
    have hbefore : mid.bytesReleased = r.bytesReleased := by
      apply Nat.le_antisymm
      · rw [← hsame]
        exact hadvances.released_le
      · exact hturns.released_le hfed
    have hless := hadvances.patience_lt (hsame.trans hbefore.symm)
    have hsooner := ih hbefore
    omega

/-! ### Whole runs -/

variable {options : Options} {sinks : Sinks} {disk : Disk} {machine : Machine} {first : Relay}

theorem Starts.fed (h : Starts options (.feed feed waits) sinks disk machine first) :
    Fed feed waits options.settled first := by
  refine ⟨⟨_, _, h.ledger⟩, h.paced.1, ?_⟩
  rw [h.source_eq.1]
  exact Supply.covers_ofFeed feed waits

theorem Starts.turns_le (h : Starts options (.feed feed waits) sinks disk machine first)
    (hturns : Turns first n mid) :
    n ≤ feed.steps.length + waits.length + 12 * (feed.payload.length + 20) := by
  have hbudget := h.paced.2.2
  have hspent := hturns.budget_le h.fed
  have henough : first.enoughTurns =
      feed.steps.length + waits.length + 12 * (feed.payload.length + 20) := by
    rw [enoughTurns, h.source_eq.1]
    rfl
  omega

/-- **Every run comes to an end.** It ends in a report or a failure, unless a number that it needs
    is too large to be kept, and that is known beforehand not to happen if the clock has room. It
    takes no more turns than the lengths of the feed and of its payload allow. A turn that finds the
    buffer full, and is not to read everything first, has bytes to release and is granted some. And
    turns that release nothing are bounded by what is left to read and by ten quanta for each byte
    that was released or may be withheld. -/
theorem run_terminates (options : Options) (feed : Feed) (waits : List WaitStep) (sinks : Sinks)
    (disk : Disk) (machine : Machine) :
    (∃ outcome, run options (.feed feed waits) sinks disk machine = some outcome ∧
        (((∃ report, outcome.result = .ok report) ∨
            ∃ e, outcome.result = .error e ∧ ∀ overflow, e ≠ .overflow overflow) ∨
          (∃ overflow, outcome.result = .error (.overflow overflow)) ∧
            options.Overruns feed machine.instants outcome.clock ∧
            ¬ options.InTime feed waits machine.instants)) ∧
      ∀ first n mid, Starts options (.feed feed waits) sinks disk machine first →
        Turns first n mid →
        n ≤ feed.steps.length + waits.length + 12 * (feed.payload.length + 20) ∧
        (mid.ended = false → mid.buffer.isFull → options.readAll = false →
          mid.filled = .ok mid ∧ ∃ vouched, mid.validate = .ok vouched ∧
            0 < vouched.releasable ∧ 0 < vouched.granted.permit) ∧
        ∀ m later, Turns mid m later → later.bytesReleased = mid.bytesReleased →
          m ≤ mid.toRead + 10 * (mid.bytesReleased + 10) := by
  constructor
  · obtain ⟨outcome, hrun⟩ := exists_run options feed waits sinks disk machine
    refine ⟨outcome, hrun, ?_⟩
    -- an error is either a missing number or one that a caller may handle
    by_cases hover : ∃ overflow, outcome.result = .error (.overflow overflow)
    · obtain ⟨overflow, hresult⟩ := hover
      exact Or.inr ⟨⟨overflow, hresult⟩, overruns_of_run hrun hresult⟩
    · left
      rcases hresult : outcome.result with e | report
      · refine Or.inr ⟨e, rfl, fun overflow heq => hover ⟨overflow, ?_⟩⟩
        rw [hresult, heq]
      · exact Or.inl ⟨report, rfl⟩
  · intro first n mid hstarts hturns
    have hfed := hturns.fed hstarts.fed
    refine ⟨hstarts.turns_le hturns, ?_, ?_⟩
    · intro hended hfull hall
      obtain ⟨input, released, hledger⟩ := hfed.ledger
      have hoptions : mid.options.readAll = false := by
        rw [hledger.options]
        exact hall
      exact hledger.validate_full hfed.paced hended hfull hoptions
    · intro m later hlater hsame
      have hidle := hlater.idle_le hfed hsame
      unfold patience at hidle
      omega

/-- The smallest buffer and the smallest ceiling, with an output that is framed. -/
def cramped : Options :=
  { bufferSize := 66, throttle := 1, passThrough := true, writeFraming := true }

/-- Bytes that may each begin a marker, more than the smallest buffer holds. -/
def teasing : Feed := ⟨[], [.bytes (List.replicate 70 110)]⟩

/-- A buffer full of bytes that may each begin a marker, under a ceiling of one byte a second: two
    turns release nothing, and a byte is granted all the same. -/
theorem run_terminates_under_small_ceiling :
    (∃ outcome, run cramped (.feed teasing []) ⟨some .unlimited, [], false⟩ (Disk.ofFiles [])
        ⟨1048576, [3]⟩ = some outcome ∧
      ((∃ report, outcome.result = .ok report) ∨
        ∃ e, outcome.result = .error e ∧ ∀ overflow, e ≠ .overflow overflow)) ∧
    ∃ first mid later,
      Starts cramped (.feed teasing []) ⟨some .unlimited, [], false⟩ (Disk.ofFiles [])
        ⟨1048576, [3]⟩ first ∧
      Turns first 1 mid ∧ Turns mid 1 later ∧ mid.buffer.isFull ∧
      later.bytesReleased = mid.bytesReleased ∧
      (∃ vouched, mid.validate = .ok vouched ∧ 0 < vouched.granted.permit) ∧
      1 ≤ mid.toRead + 10 * (mid.bytesReleased + 10) := by
  have htime : cramped.InTime teasing [] [3] :=
    ⟨by decide, fun _ => by decide, fun _ => by decide, nofun, by decide⟩
  obtain ⟨⟨outcome, hrun, hends⟩, hmid⟩ := run_terminates cramped teasing []
    ⟨some .unlimited, [], false⟩ (Disk.ofFiles []) ⟨1048576, [3]⟩
  refine ⟨⟨outcome, hrun, hends.resolve_right fun hover => hover.2.2 htime⟩, ?_⟩
  have hcourse : (prepare cramped (.feed teasing []) ⟨some .unlimited, [], false⟩ (Disk.ofFiles [])
      ⟨1048576, [3]⟩).toOption.any fun r => r.begin.toOption.any fun first =>
        first.turn.toOption.any fun mid => mid.turn.toOption.any fun later =>
          !first.isDone && !mid.ended && mid.buffer.isFull &&
            later.bytesReleased == mid.bytesReleased := by
    decide +kernel
  obtain ⟨r, hprepare, hcourse⟩ := exists_ok hcourse
  obtain ⟨first, hbegin, hcourse⟩ := exists_ok hcourse
  obtain ⟨mid, hturn, hcourse⟩ := exists_ok hcourse
  obtain ⟨later, hturn', hcourse⟩ := exists_ok hcourse
  simp only [Bool.and_eq_true, Bool.not_eq_true', beq_iff_eq] at hcourse
  obtain ⟨⟨⟨hbusy, hended⟩, hfull⟩, hsame⟩ := hcourse
  have hbusy' : mid.isDone = false := by
    rw [isDone, hended]
    rfl
  have hstarts : Starts cramped (.feed teasing []) ⟨some .unlimited, [], false⟩ (Disk.ofFiles [])
      ⟨1048576, [3]⟩ first := ⟨r, hprepare, hbegin⟩
  have hturns : Turns first 1 mid := .turn .none hbusy hturn
  have hlater : Turns mid 1 later := .turn .none hbusy' hturn'
  obtain ⟨_, hgrants, hidle⟩ := hmid first 1 mid hstarts hturns
  obtain ⟨_, vouched, hvalidate, _, hgranted⟩ := hgrants hended hfull rfl
  exact ⟨first, mid, later, hstarts, hturns, hlater, hfull, hsame, ⟨vouched, hvalidate, hgranted⟩,
    hidle 1 later hlater hsame⟩

/-- A limiter that is asked at a moment which the clock cannot tell, or whose product is too large,
    ends a run with neither a report nor a failure of the relay. -/
theorem exists_run_out_of_time :
    (∃ (options : Options) (feed : Feed), options.validate = .ok (options, []) ∧
      (run options (.feed feed []) ⟨some .unlimited, [], false⟩ (Disk.ofFiles [])
        ⟨1048576, []⟩).map (·.result) = some (.error (.overflow .moment))) ∧
    ∃ (options : Options) (feed : Feed), options.validate = .ok (options, []) ∧
      (run options (.feed feed []) ⟨some .unlimited, [], false⟩ (Disk.ofFiles [])
        ⟨1048576, []⟩).map (·.result) = some (.error (.overflow .product)) := by
  refine ⟨⟨{ throttle := 1, passThrough := true },
      ⟨[], [.passTime (.ofParts (2 ^ 63 - 1) 0), .bytes [120]]⟩, ?_, ?_⟩,
    ⟨{ throttle := 2 ^ 63, passThrough := true }, ⟨[], [.passTime (2 ^ 65), .bytes [120]]⟩, ?_, ?_⟩⟩
  · decide
  · decide +kernel
  · decide
  · decide +kernel

end Relay

end StreamRelay
