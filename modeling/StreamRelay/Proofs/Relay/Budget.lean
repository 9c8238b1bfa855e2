/-
  StreamRelay/Proofs/Relay/Budget.lean
  ====================================
  **Every turn uses something up.**

  A turn either takes an answer from the source or finds the input at its end or the buffer full. In
  the latter cases there is something to release, and a release takes a byte or the limiter stalls.
  It stalls only if it granted fewer bytes than a marker has, and a limiter that does so lags behind
  the bytes that were released: time passes until it does so no more. The `budget` adds up the
  answers, the bytes and the stalls to come, and every turn lowers it (`Ledger.turn_budget`).

  Main statement: over a feed, turns come to an end (`exists_run`).
-/
import StreamRelay.Proofs.Relay.Intake
import StreamRelay.Proofs.Report.Dots

namespace StreamRelay

open Framing

/-! ### Small grants -/

/-- **A limiter that grants fewer bytes than a marker has, of more, has let few bytes pass for the
    time so far.** What it allows grows by a byte each second at least. -/
theorem Limiter.lags_of_small_permit {l : Limiter} {now : Duration} {available : Nat}
    (hceiling : 0 < l.ceiling) (hopened : l.opened = 0) (hnow : now < Duration.horizon)
    (hpart : (l.grant now available).permit < available)
    (hsmall : (l.grant now available).permit < marker.length) :
    now / quantum < 10 * (l.released + 10) := by
  have hmarker : marker.length = 10 := rfl
  have hallowance : l.allowance now < 10 := by
    have hgrant : l.grant now available =
        if l.allowance now < l.minChunk then ⟨quantum, min l.minChunk available⟩
        else ⟨0, min (l.allowance now) available⟩ := if_neg (by omega)
    by_cases hahead : l.allowance now < l.minChunk
    · rw [hgrant, if_pos hahead] at hpart hsmall
      dsimp only at hpart hsmall
      omega
    · rw [hgrant, if_neg hahead] at hpart hsmall
      dsimp only at hpart hsmall
      omega
  rcases Nat.eq_zero_or_pos now with rfl | hpos
  · rw [Nat.zero_div]
    exact Nat.mul_pos (Nat.succ_pos _) (Nat.succ_pos _)
  · -- each whole second allows a byte, so there are no more of them than bytes are due
    have helapsed : l.elapsed now = now := by
      rw [elapsed, hopened, Nat.sub_zero, if_neg (Nat.ne_of_gt hpos)]
    have hdue : l.due now < l.released + 10 := by
      rw [allowance, helapsed] at hallowance
      omega
    have hseconds : now / Duration.perSecond ≤ l.due now := by
      have hcount : now / Duration.perSecond ≤ countLimit - 1 :=
        Nat.le_trans (Nat.div_le_div_right (Nat.le_of_lt hnow)) (by decide)
      exact Nat.le_min.2 ⟨Nat.div_le_div_right (Nat.le_mul_of_pos_left now hceiling), hcount⟩
    have hquanta : now / Duration.perSecond = now / quantum / 10 :=
      (Nat.div_div_eq_div_mul now quantum 10).symm
    have hlags := Nat.lt_of_le_of_lt hseconds hdue
    rw [hquanta, Nat.div_lt_iff_lt_mul (by decide), Nat.mul_comm] at hlags
    exact hlags

namespace Relay

variable {F : Supply} {o : Options} {r r' r₁ : Relay} {input given released : Bytes}
  {n permit : Nat}

/-! ### What releasing does to the accounts -/

def quanta (r : Relay) : Nat := r.clock / quantum

theorem quanta_le (h : r.clock ≤ r'.clock) : r.quanta ≤ r'.quanta := Nat.div_le_div_right h

theorem quanta_lt (h : r.clock + quantum ≤ r'.clock) : r.quanta < r'.quanta := by
  have hnext : (r.clock + quantum) / quantum ≤ r'.quanta := Nat.div_le_div_right h
  rwa [Nat.add_div_right _ (by decide)] at hnext

/-- A relay that was paced from the start of its clock, with a buffer that is large enough. -/
structure Paced (o : Options) (r : Relay) : Prop where
  limiter : r.limiter = if o.throttle = 0 then none else some ⟨o.throttle, 0, r.bytesReleased⟩
  capacity : minBufferSize ≤ r.buffer.capacity

/-- What was released left the buffer, was told to the limiter and to progress, and took no more
    than two quanta of time, or none without a limiter. -/
structure Serves (r r' : Relay) : Prop where
  source : r'.source = r.source
  ended : r'.ended = r.ended
  memory : r'.memory = r.memory
  instants : r'.instants = r.instants
  capacity : r'.buffer.capacity = r.buffer.capacity
  released_le : r.bytesReleased ≤ r'.bytesReleased
  conserved : r'.bytesReleased + r'.buffer.length = r.bytesReleased + r.buffer.length
  later : r.clock ≤ r'.clock
  soon : r'.clock ≤ r.clock + if r.limiter.isSome then 2 * quantum else 0
  limiter : r'.limiter = r.paced (r'.bytesReleased - r.bytesReleased)
  tally : ∀ {outlet d rateEvery}, Progress.Tally outlet d rateEvery r.bytesReleased r.progress →
    Progress.Tally outlet d rateEvery r'.bytesReleased r'.progress

theorem Serves.paced (h : Serves r r') (hpaced : Paced o r) : Paced o r' := by
  refine ⟨?_, by rw [h.capacity]; exact hpaced.capacity⟩
  rw [h.limiter, Relay.paced, hpaced.limiter]
  split
  · rfl
  · rw [Option.map_some, Nat.add_sub_cancel' h.released_le]

theorem granted_pause_le (r : Relay) :
    r.granted.pause ≤ if r.limiter.isSome then quantum else 0 := by
  unfold granted
  split
  · exact Nat.zero_le _
  · next limiter hlimiter =>
    refine Nat.le_trans (limiter.pause_grant_le _ _) (Nat.le_of_eq (if_pos ?_).symm)
    rw [hlimiter]
    rfl

theorem stall_le (r : Relay) (n : Nat) : r.stall n ≤ if r.limiter.isSome then quantum else 0 := by
  unfold stall
  by_cases hlimiter : r.limiter.isSome
  · rw [if_pos hlimiter]
    split
    · exact Nat.le_refl _
    · exact Nat.zero_le _
  · rw [if_neg fun h => hlimiter h.1]
    exact Nat.zero_le _

theorem ready_length_le (r : Relay) : r.ready.length ≤ r.buffer.length := by
  have hle := r.ready_prefix.length_le
  rwa [ReadBuffer.length_view] at hle

/-- **What releasing does to the accounts of a relay.** -/
theorem serves (hvalidated : r.validated ≤ r.buffer.length) (hserve : r.releaseReady = .ok r') :
    Serves r r' := by
  have hserving := r.serving
  rw [hserve] at hserving
  cases hserving with
  | idle _ =>
    refine ⟨rfl, rfl, rfl, rfl, rfl, Nat.le_refl _, rfl, Nat.le_refl _, Nat.le_add_right _ _, ?_,
      id⟩
    rw [Nat.sub_self, Relay.paced]
    cases r.limiter <;> rfl
  | @served journal journal' _ n _ hpermit _ _ hrelease _ =>
    have hpause := r.granted_pause_le
    have hstall := r.stall_le n
    have hready := Nat.le_trans hpermit (releasable_le hvalidated)
    have hlength := Nat.le_trans hready r.ready_length_le
    cases hrelease with
    | @released sinks disk journal'' text progress _ _ _ hadvance _ _ =>
      -- bytes leave the buffer and are counted; the pauses are the grant's and that for a stall
      have hused := portion_used_le { r with clock := r.clock + r.granted.pause, journal }
        r.granted.permit
      generalize hn : (portion { r with clock := r.clock + r.granted.pause, journal }
        r.granted.permit).used = n at *
      refine ⟨rfl, rfl, rfl, rfl, ?_, ?_, ?_, ?_, ?_, ?_, ?_⟩
      · exact ReadBuffer.capacity_consume _ _
      · exact Nat.le_add_right _ _
      · change r.bytesReleased + _ + (r.buffer.consume _).length = _
        rw [hn, ReadBuffer.length_consume]
        omega
      · change r.clock ≤ r.clock + _ + _
        rw [Nat.add_assoc]
        exact Nat.le_add_right _ _
      · change r.clock + r.granted.pause + r.stall n ≤ _
        rw [Nat.add_assoc]
        refine Nat.add_le_add_left (Nat.le_trans (Nat.add_le_add hpause hstall) ?_) _
        by_cases hlimiter : r.limiter.isSome
        · rw [if_pos hlimiter, if_pos hlimiter]
          exact Nat.le_of_eq (Nat.two_mul quantum).symm
        · simp only [if_neg hlimiter, Nat.add_zero, Nat.le_refl]
      · change r.paced n = r.paced (r.bytesReleased + _ - r.bytesReleased)
        rw [hn, Nat.add_sub_cancel_left]
      · intro _ _ _ htally
        change Progress.Tally _ _ _ (r.bytesReleased + _) progress
        rw [hn]
        exact htally.advance hadvance

/-- A release takes nothing only if it withholds all of a window that is shorter than a marker, with
    more behind it. -/
theorem portion_used_eq_zero (hpos : 0 < permit) (hpermit : permit ≤ r.buffer.length)
    (hnone : (r.portion permit).used = 0) :
    permit < marker.length ∧ (r.ended && permit == r.buffer.length) = false := by
  have hwindow : (r.buffer.view.take permit).length = permit := by
    rw [List.length_take, ReadBuffer.length_view]
    exact Nat.min_eq_left hpermit
  rcases hencoder : r.encoder with _ | e
  · rw [portion_plain hencoder] at hnone
    exact absurd hnone (Nat.ne_of_gt hpos)
  · cases hlast : r.ended && permit == r.buffer.length with
    | true =>
      rw [portion_last hencoder hlast] at hnone
      omega
    | false =>
      rw [portion_framed hencoder, hlast] at hnone
      have hpending := pending_lt (r.buffer.view.take permit)
      simp only [taken, hwindow, Bool.false_eq_true, if_false] at hnone
      exact ⟨by omega, rfl⟩

/-- **Releasing takes a byte, or waits for a limiter that lags behind**, if the input is at its end
    or more is ready than could be withheld. -/
theorem serve_gets_on (hpaced : Paced o r) (hvalidated : r.validated ≤ r.buffer.length)
    (hserve : r.releaseReady = .ok r') (hsome : 0 < r.releasable)
    (hready : (r.ended ∧ r.releasable = r.buffer.length) ∨ marker.length ≤ r.releasable) :
    r'.buffer.length < r.buffer.length ∨
      r.quanta < 10 * (r.bytesReleased + 10) ∧ r.quanta < r'.quanta := by
  have hserving := r.serving
  rw [hserve] at hserving
  cases hserving with
  | idle hnone => exact absurd hnone (Nat.ne_of_gt hsome)
  | @served journal journal' r₁ n hpos hpermit hreckons hjournal hrelease _ =>
    have hlength := Nat.le_trans hpermit (Nat.le_trans (releasable_le hvalidated) r.ready_length_le)
    cases hrelease with
    | @released sinks disk journal'' _ _ _ _ _ _ _ _ =>
      rcases Nat.eq_zero_or_pos (portion { r with clock := r.clock + r.granted.pause, journal }
        r.granted.permit).used with hnone | htaken
      · -- all that was granted is withheld: so the limiter granted less than there was
        right
        obtain ⟨hsmall, hlast⟩ := portion_used_eq_zero hpos hlength hnone
        have hpart : r.granted.permit < r.releasable := by
          rcases hready with ⟨hended, hall⟩ | hmany
          · change (r.ended && r.granted.permit == r.buffer.length) = false at hlast
            rw [hended, Bool.true_and, beq_eq_false_iff_ne] at hlast
            omega
          · exact Nat.lt_of_lt_of_le hsmall hmany
        have hlimiter := hpaced.limiter
        split at hlimiter
        · rw [granted, hlimiter] at hpart
          exact absurd hpart (Nat.lt_irrefl _)
        · next hthrottle =>
          have hceiling := Nat.pos_of_ne_zero hthrottle
          -- a limiter that could reckon was asked at a moment of the clock
          have hnow : r.clock < Duration.horizon := by
            rcases hreckons _ hlimiter with hzero | hnothing | ⟨hsoon, _⟩
            · exact absurd hzero hthrottle
            · exact absurd hnothing (Nat.ne_of_gt hsome)
            · exact hsoon
          rw [granted, hlimiter] at hpart hsmall
          refine ⟨Limiter.lags_of_small_permit hceiling rfl hnow hpart hsmall, quanta_lt ?_⟩
          have hstall : r.stall 0 = quantum := by rw [stall, hlimiter, if_pos ⟨rfl, rfl⟩]
          change r.clock + quantum ≤ r.clock + r.granted.pause + r.stall _
          rw [hnone, hstall]
          exact Nat.add_le_add_right (Nat.le_add_right _ _) _
      · left
        change (r.buffer.consume _).length < r.buffer.length
        rw [ReadBuffer.length_consume]
        change 0 < (portion _ r.granted.permit).used at htaken
        omega

/-! ### The budget of turns -/

/-- The answers that the source has yet to give, the bytes among them, and the end of the input. -/
def toRead (r : Relay) : Nat := r.source.answers + r.source.extent r.disk + if r.ended then 0 else 1

def toRelease (r : Relay) : Nat := r.source.extent r.disk + r.buffer.length

/-- The stalls that are yet to come, at most: a limiter that lets a byte pass in a second has caught
    up after them. -/
def toWait (r : Relay) : Nat := 10 * (r.bytesReleased + r.toRelease + 10) - r.quanta

/-- **A bound on the turns to come.** -/
def budget (r : Relay) : Nat := r.toRead + r.toRelease + r.toWait

/-- An attempt to fill the buffer took something from the source, or there was nothing to fill or no
    room. -/
structure Takes (r r₁ : Relay) : Prop where
  bytesReleased : r₁.bytesReleased = r.bytesReleased
  limiter : r₁.limiter = r.limiter
  capacity : r.buffer.capacity ≤ r₁.buffer.capacity
  later : r.clock ≤ r₁.clock
  toRelease : r₁.toRelease = r.toRelease
  toRead : r₁.toRead < r.toRead ∨ r₁ = r ∧ (r.ended ∨ r.buffer.isFull ∧ r.options.readAll = false)

/-- The source is of the same kind still, and the time that went by was laid down for it. -/
structure Fills (F : Supply) (r r₁ : Relay) : Prop extends Takes r r₁ where
  covers : F.covers r₁.source
  spent : r₁.clock + F.span r₁.source ≤ r.clock + F.span r.source + F.perRead

theorem capacity_le_room (r : Relay) : r.buffer.capacity ≤ r.room := by
  unfold room
  split
  · exact Nat.le_add_right _ _
  · exact Nat.le_refl _

theorem takes_of_idle (hwhy : r.ended ∨ r.buffer.isFull ∧ r.options.readAll = false) : Takes r r :=
  ⟨rfl, rfl, Nat.le_refl _, Nat.le_refl _, rfl, Or.inr ⟨rfl, hwhy⟩⟩

/-- **An answer that ends the input, brings a byte or uses up an answer in store takes something
    from the source.** -/
theorem takes_receive {answer : ReadResult Source} {buffer : ReadBuffer} (hended : r.ended = false)
    (hyields : F.Yields r.source answer) (hextent : r.source.extent r.disk = F.left r.source)
    (hextent' : answer.source.extent r.disk = F.left answer.source)
    (hview : buffer.view = r.buffer.view ++ answer.reading.given)
    (hcapacity : buffer.capacity = r.room) (journal : Journal) :
    Takes r (r.receive buffer answer journal) := by
  have hleft := hyields.left
  have hanswers := hyields.answers
  have hlength : buffer.length = r.buffer.length + answer.reading.given.length := by
    rw [← buffer.length_view, hview, List.length_append, ReadBuffer.length_view]
  refine ⟨rfl, rfl, ?_, Nat.le_add_right _ _, ?_, Or.inl ?_⟩
  · change r.buffer.capacity ≤ buffer.capacity
    rw [hcapacity]
    exact r.capacity_le_room
  · change answer.source.extent r.disk + buffer.length = r.source.extent r.disk + r.buffer.length
    omega
  · have hopen : (if r.endsWith answer.reading then 0 else 1) ≤ 1 := by
      split <;> omega
    change answer.source.answers + answer.source.extent r.disk +
        (if r.endsWith answer.reading then 0 else 1) <
      r.source.answers + r.source.extent r.disk + if r.ended then 0 else 1
    rw [hended]
    simp only [Bool.false_eq_true, if_false]
    rcases hyields.gets with hend | hsome | hfewer
    · -- there is no more to read, and that is worth one
      have hclosed : r.endsWith answer.reading = true := by
        rw [hend]
        rfl
      rw [if_pos hclosed]
      omega
    · have := List.length_pos_iff.2 hsome
      omega
    · omega

/-- **An attempt to fill the buffer takes an answer from the source**, unless there is nothing to
    fill or no room. -/
theorem Ledger.fills (h : Ledger o input released r) (hcovers : F.covers r.source)
    (hsees : F.sees r.disk) (hfilled : r.filled = .ok r₁) : Fills F r r₁ := by
  have hfilling := r.filling
  rw [hfilled] at hfilling
  cases hfilling with
  | idle hwhy => exact ⟨takes_of_idle hwhy, hcovers, Nat.le_add_right _ _⟩
  | @received answer buffer journal hended hattempt hreading hview hcapacity _ _ =>
    have hyields := F.attempt hcovers hsees (asked_pos h hended) hattempt
    refine ⟨takes_receive hended hyields (F.extent hcovers hsees)
      (F.extent hyields.covers hsees) hview hcapacity journal, hyields.covers, ?_⟩
    change r.clock + answer.elapsed + F.span answer.source ≤ _
    have helapsed := Nat.add_le_add_left hyields.elapsed r.clock
    rw [Nat.add_assoc, Nat.add_assoc, Nat.add_comm (F.span r.source)]
    exact helapsed

/-- **A relay that could not read has something to release**: everything if the input is at its end,
    and otherwise what a full buffer holds besides the bytes that cannot be told yet. -/
theorem Ledger.releasable_of_idle (h : Ledger o input released r) (hpaced : Paced o r)
    (hbusy : r.isDone = false) (hfilled : r.filled = .ok r) (hvalidate : r.validate = .ok r')
    (hwhy : r.ended ∨ r.buffer.isFull ∧ r.options.readAll = false) :
    0 < r'.releasable ∧
      ((r'.ended ∧ r'.releasable = r'.buffer.length) ∨ marker.length ≤ r'.releasable) := by
  have harrival : r.arrival = [] := arrival_eq hfilled (List.append_nil _).symm
  have harrived := h.arrive hbusy hfilled
  have hvouched := harrived.vouch hvalidate
  obtain ⟨buffer, decoder, validated, fresh, hr', _, _, hready, _⟩ :=
    validate_ok harrived.unseen harrived.validated_le hvalidate
  have hended' : r'.ended = r.ended := by rw [hr']
  have hoptions : r'.options = r.options := by rw [hr']
  have hparts := congrArg List.length r.ready_append_behind
  have hparts' := congrArg List.length r'.ready_append_behind
  rw [List.length_append, ReadBuffer.length_view] at hparts hparts'
  rw [releasable_eq hvouched.validated_le, hended', hoptions]
  cases hended : r.ended with
  | true =>
    -- nothing is held back at the end of the input, and the relay is not done
    obtain ⟨hpayload, hbehind⟩ := h.complete hended
    obtain ⟨hpayload', hbehind'⟩ := hvouched.complete (hended'.trans hended)
    rw [harrival, List.append_nil, hpayload] at hpayload'
    have hsame := congrArg List.length (List.append_cancel_left (Except.ok.inj hpayload'))
    rw [hbehind] at hparts
    rw [hbehind'] at hparts'
    rw [isDone, hended, Bool.true_and, ReadBuffer.isEmpty, beq_eq_false_iff_ne] at hbusy
    rw [List.length_nil, Nat.add_zero] at hparts hparts'
    rw [if_neg (by simp)]
    exact ⟨by omega, Or.inl ⟨rfl, hparts'⟩⟩
  | false =>
    -- a full buffer has room for several escapes, of which at most one is held back
    obtain ⟨hfull, hall⟩ := hwhy.resolve_left (by simp [hended])
    have hheld := h.vouched.length_held_le
    have hcapacity := hpaced.capacity
    rw [ReadBuffer.isFull, decide_eq_true_iff] at hfull
    have hmarker : marker.length = 10 := rfl
    have hsize : minBufferSize = 66 := rfl
    rw [if_neg (by simp [hall]), hready, List.length_append]
    exact ⟨by omega, Or.inr (by omega)⟩

/-- A turn takes an answer from the source, releases a byte, or lets a quantum pass for a limiter
    that lags behind; and nothing of this is ever taken back. -/
structure Advances (r r' : Relay) : Prop where
  toRead_le : r'.toRead ≤ r.toRead
  released_le : r.bytesReleased ≤ r'.bytesReleased
  conserved : r'.toRelease + r'.bytesReleased ≤ r.toRelease + r.bytesReleased
  quanta_le : r.quanta ≤ r'.quanta
  gains : r'.toRead < r.toRead ∨ r.bytesReleased < r'.bytesReleased ∨
    r.quanta < 10 * (r.bytesReleased + 10) ∧ r.quanta < r'.quanta

theorem Advances.budget_lt (h : Advances r r') : r'.budget < r.budget := by
  obtain ⟨hread, hreleased, hconserved, hquanta, hgains⟩ := h
  unfold budget toWait
  rcases hgains with hgain | hgain | ⟨hlags, hgain⟩ <;> omega

def pausesOf (o : Options) : Duration := if o.throttle = 0 then 0 else 2 * quantum

structure Spends (F : Supply) (o : Options) (r r' : Relay) : Prop where
  covers : F.covers r'.source
  paced : Paced o r'
  advances : Advances r r'
  spent : r'.clock + F.span r'.source ≤ r.clock + F.span r.source + (F.perRead + pausesOf o)

theorem Spends.budget (h : Spends F o r r') : r'.budget < r.budget := h.advances.budget_lt

theorem Paced.pausesOf_eq (h : Paced o r) :
    (if r.limiter.isSome then 2 * quantum else 0) = pausesOf o := by
  rw [h.limiter, pausesOf]
  by_cases hthrottle : o.throttle = 0
  · rw [if_pos hthrottle, if_pos hthrottle]
    exact if_neg Bool.noConfusion
  · rw [if_neg hthrottle, if_neg hthrottle]
    exact if_pos rfl

/-- **Every turn whose source is left as its read left it gets on**, and takes two quanta at most
    after the read. -/
theorem Ledger.turn_advances (h : Ledger o input released r) (hpaced : Paced o r)
    (hbusy : r.isDone = false) (hfilled : r.filled = .ok r₁) (htakes : Takes r r₁)
    (hturn : r.turn = .ok r') (hextent : r'.source.extent r'.disk = r₁.source.extent r₁.disk) :
    Paced o r' ∧ Advances r r' ∧ r'.clock ≤ r₁.clock + pausesOf o := by
  obtain ⟨_, r₂, r₃, hfilled', hvalidate, hserve, htick⟩ := turn_ok hturn
  rw [hfilled] at hfilled'
  cases hfilled'
  have harrived := h.arrive hbusy hfilled
  have hvouched := harrived.vouch hvalidate
  have hpaced₁ : Paced o r₁ := by
    refine ⟨?_, Nat.le_trans hpaced.capacity htakes.capacity⟩
    rw [htakes.limiter, htakes.bytesReleased]
    exact hpaced.limiter
  obtain ⟨buffer, decoder, validated, fresh, hr₂, _, _, _, _, hcapacity, hlength, _⟩ :=
    validate_ok harrived.unseen harrived.validated_le hvalidate
  have hpaced₂ : Paced o r₂ := by
    rw [hr₂]
    exact ⟨hpaced₁.limiter, by rw [hcapacity]; exact hpaced₁.capacity⟩
  have hserves := serves hvouched.validated_le hserve
  have hpaced₃ := hserves.paced hpaced₂
  have hended : r₃.ended = r₁.ended := hserves.ended.trans (by rw [hr₂])
  have hsource : r₃.source = r₁.source := hserves.source.trans (by rw [hr₂])
  have hclock : r₂.clock = r₁.clock := by rw [hr₂]
  have hlimiter : r₂.limiter = r₁.limiter := by rw [hr₂]
  have hreleased : r₂.bytesReleased = r.bytesReleased := by rw [hr₂, htakes.bytesReleased]
  have hlength₂ : r₂.buffer.length ≤ r₁.buffer.length := by rw [hr₂]; exact hlength
  obtain ⟨instants, progress, journal, rfl, _⟩ := tick_ok htick
  change r₃.source.extent r₃.disk = _ at hextent
  refine ⟨⟨hpaced₃.limiter, hpaced₃.capacity⟩, ?_, ?_⟩
  · have htoRead : r₃.toRead = r₁.toRead := by rw [toRead, toRead, hextent, hsource, hended]
    have htoRelease : r₃.toRelease + r₃.bytesReleased ≤ r.toRelease + r.bytesReleased := by
      have := hserves.conserved
      rw [← htakes.toRelease, Relay.toRelease, Relay.toRelease, hextent]
      omega
    have hquanta₂ : r₂.quanta = r₁.quanta := by rw [quanta, quanta, hclock]
    have hquanta : r.quanta ≤ r₁.quanta := quanta_le htakes.later
    have hquanta₃ : r₂.quanta ≤ r₃.quanta := quanta_le hserves.later
    have hmonotone := hserves.released_le
    have hconserved := hserves.conserved
    have hread : r₁.toRead ≤ r.toRead := by
      rcases htakes.toRead with hread | ⟨rfl, _⟩
      · exact Nat.le_of_lt hread
      · exact Nat.le_refl _
    -- a turn that read nothing has something to release, or a limiter to wait for
    have hgains : r₃.toRead < r.toRead ∨ r.bytesReleased < r₃.bytesReleased ∨
        r.quanta < 10 * (r.bytesReleased + 10) ∧ r.quanta < r₃.quanta := by
      rcases htakes.toRead with hread | ⟨rfl, hwhy⟩
      · exact Or.inl (htoRead ▸ hread)
      · obtain ⟨hsome, hready⟩ := h.releasable_of_idle hpaced hbusy hfilled hvalidate hwhy
        rcases serve_gets_on hpaced₂ hvouched.validated_le hserve hsome hready with hshorter |
          ⟨hlags, hstalled⟩
        · exact Or.inr (Or.inl (by omega))
        · exact Or.inr (Or.inr (by omega))
    have hreleased₃ : r.bytesReleased ≤ r₃.bytesReleased := hreleased ▸ hmonotone
    have hlater : r.quanta ≤ r₃.quanta := by omega
    exact ⟨Nat.le_trans (Nat.le_of_eq htoRead) hread, hreleased₃, htoRelease, hlater, hgains⟩
  · have hsoon := hserves.soon
    rwa [hclock, hlimiter, htakes.limiter, hpaced.pausesOf_eq] at hsoon

/-- **Every turn gets on**, and so lowers the budget. -/
theorem Ledger.turn_budget (h : Ledger o input released r) (hpaced : Paced o r)
    (hcovers : F.covers r.source) (hsees : F.sees r.disk) (hbusy : r.isDone = false)
    (hturn : r.turn = .ok r') (hsees' : F.sees r'.disk) : Spends F o r r' := by
  obtain ⟨r₁, hfilled, hsource, _⟩ := turn_frame hturn
  have hfills := h.fills hcovers hsees hfilled
  have hdisk : r₁.disk = r.disk := by
    obtain ⟨⟨_, _, _, _, _, _, rfl⟩, _⟩ := filled_frame h.validated_le hfilled
    rfl
  have hextent : r'.source.extent r'.disk = r₁.source.extent r₁.disk := by
    rw [hsource, F.extent hfills.covers hsees', F.extent hfills.covers (hdisk.symm ▸ hsees)]
  obtain ⟨hpaced', hadvances, hclock⟩ :=
    h.turn_advances hpaced hbusy hfilled hfills.toTakes hturn hextent
  refine ⟨hsource ▸ hfills.covers, hpaced', hadvances, ?_⟩
  have hspent := Nat.add_le_add_right hfills.spent (pausesOf o)
  rw [hsource, ← Nat.add_assoc]
  refine Nat.le_trans (Nat.add_le_add_right hclock _) ?_
  rwa [Nat.add_right_comm]

/-! ### Turns come to an end -/

/-- **More turns than the budget has are enough**, if something holds between the turns that makes
    each of them lower it. -/
theorem exists_turns {P : Relay → Prop}
    (hstep : ∀ r r', P r → r.isDone = false → r.turn = .ok r' → P r' ∧ r'.budget < r.budget)
    (hstart : P r) (hbusy : r.isDone = false) (hbudget : r.budget < n) :
    ∃ result, turns n r = some result := by
  -- a turn takes one off what is left, and one at least off the budget
  induction n generalizing r with
  | zero => exact absurd hbudget (Nat.not_lt_zero _)
  | succ n ih =>
    unfold turns
    rcases hturn : r.turn with halt | r'
    · exact ⟨_, rfl⟩
    · dsimp only
      cases hdone : r'.isDone with
      | true => exact ⟨_, rfl⟩
      | false =>
        obtain ⟨hnext, hless⟩ := hstep r r' hstart hbusy hturn
        exact ih hnext hdone (by omega)

variable {options : Options} {source : Source} {sinks : Sinks} {disk : Disk} {machine : Machine}
  {first : Relay}

/-- The first relay of a run is paced, has all its time before it, and gets more turns than its
    budget. -/
theorem Starts.paced (h : Starts options source sinks disk machine first) :
    Paced options.settled first ∧ first.clock = 0 ∧ first.budget < first.enoughTurns := by
  obtain ⟨warnings, buffer, progress, bytes, journal, hbuffer, hsize, _, rfl⟩ := h.eq
  obtain ⟨hview, hcapacity, _⟩ := view_ofCapacity? hbuffer
  have hempty : buffer.length = 0 := by rw [← buffer.length_view, hview, List.length_nil]
  refine ⟨⟨rfl, ?_⟩, rfl, ?_⟩
  · change minBufferSize ≤ buffer.capacity
    rwa [hcapacity]
  · have hquanta : (0 : Duration) / quantum = 0 := Nat.zero_div _
    unfold budget toRead toRelease toWait toRelease quanta enoughTurns opened ofOptions
    dsimp only
    rw [hquanta, hempty]
    simp only [Bool.false_eq_true, if_false]
    omega

/-- **A run comes to an end** if every turn lowers the budget. -/
theorem exists_run_of {P : Relay → Prop}
    (hstep : ∀ r r', P r → r.isDone = false → r.turn = .ok r' → P r' ∧ r'.budget < r.budget)
    (hstart : ∀ first, Starts options source sinks disk machine first → P first) :
    ∃ outcome, run options source sinks disk machine = some outcome := by
  rw [run_eq]
  rcases hprepare : prepare options source sinks disk machine with ⟨e, warnings⟩ | r
  · exact ⟨_, rfl⟩
  · dsimp only
    unfold complete
    rcases hbegin : r.begin with halt | first
    · exact ⟨_, rfl⟩
    · have hstarts : Starts options source sinks disk machine first := ⟨r, hprepare, hbegin⟩
      obtain ⟨result, hturns⟩ := exists_turns hstep (hstart first hstarts)
        (ledger_begin hprepare hbegin).2 hstarts.paced.2.2
      dsimp only
      rw [hturns]
      exact ⟨_, rfl⟩

/-- **A run over a feed comes to an end.** -/
theorem exists_run (options : Options) (feed : Feed) (waits : List WaitStep) (sinks : Sinks)
    (disk : Disk) (machine : Machine) :
    ∃ outcome, run options (.feed feed waits) sinks disk machine = some outcome := by
  apply exists_run_of (P := fun r => (∃ input released, Ledger options.settled input released r) ∧
    Paced options.settled r ∧ (Supply.ofFeed feed waits).covers r.source)
  · rintro r r' ⟨⟨input, released, hledger⟩, hpaced, hcovers⟩ hbusy hturn
    have hspends := hledger.turn_budget hpaced hcovers trivial hbusy hturn trivial
    obtain ⟨block, hledger'⟩ := hledger.turn hbusy hturn
    exact ⟨⟨⟨_, _, hledger'⟩, hspends.paced, hspends.covers⟩, hspends.budget⟩
  · intro first hstarts
    refine ⟨⟨_, _, hstarts.ledger⟩, hstarts.paced.1, ?_⟩
    rw [hstarts.source_eq.1]
    exact Supply.covers_ofFeed feed waits

end Relay

end StreamRelay
