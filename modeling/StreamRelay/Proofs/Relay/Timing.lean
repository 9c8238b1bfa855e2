/-
  StreamRelay/Proofs/Relay/Timing.lean
  ====================================
  **Runs that end for want of a number.**

  The clock tells spans and moments up to a limit only, a limiter multiplies in 128 bits, and bytes
  are counted in 64. A turn that fails for want of a number has met one that is too large, of the
  time so far, of the deadline of a rate line, or of the input (`Accounted.turn_error`).

  The time that a source lets pass is laid down, and the pauses of a limiter take two quanta a turn
  at most, of which there are no more than the budget has. So it is known at any point by which
  moment a run is over (`Supply.deadline`), and no turn puts that off. If that moment can be told,
  and multiplied by the ceiling, no number of the time is ever too large
  (`Prompt.not_overruns`).

  Main statement: a run over a feed that ends for want of a number has come to one that is too
  large, and its options and the feed did not rule that out (`overruns_of_run`).
-/
import StreamRelay.Proofs.Relay.Budget

namespace StreamRelay

/-! ### What there must be room for -/

/-- Turns that are enough for a run over a source of some kind. -/
def Supply.enoughTurns (F : Supply) (source : Source) : Nat :=
  source.answers + 12 * (F.left source + 20)

/-- The time that a run over a source takes at most: what is laid down for the source, and for each
    turn a read and the pauses of a limiter. -/
def Supply.runSpan (F : Supply) (o : Options) (source : Source) : Duration :=
  F.span source + (F.perRead + Relay.pausesOf o) * F.enoughTurns source

/-- **The numbers of a run over a source can be kept**: its moments, and the product of the ceiling
    and each of them; the deadlines of its rate lines; and the count of the input. -/
structure Options.Punctual (o : Options) (F : Supply) (source : Source)
    (instants : List Duration) : Prop where
  reading : F.runSpan o source < Duration.limit
  pacing : o.throttle ≠ 0 → F.runSpan o source < Duration.horizon
  product : o.throttle ≠ 0 → o.throttle * F.runSpan o source < productLimit
  reporting : ∀ every, o.rateEvery = some every →
    every < Duration.horizon ∧ ∀ now ∈ instants, now + every < Duration.horizon
  count : (o.cut (F.rest source)).length < countLimit

/-- The time that a run over a feed takes at most under a limiter: what the feed lets pass, and two
    quanta for each turn. -/
def Feed.pacedSpan (feed : Feed) (waits : List WaitStep) : Duration :=
  feed.duration +
    2 * quantum * (feed.steps.length + waits.length + 12 * (feed.payload.length + 20))

/-- **The numbers of a run can be kept**: each moment at which the feed has let time pass, and with
    a limiter all its pauses too, and the product of its ceiling and that time; each deadline of a
    rate line; and the count of the input. -/
structure Options.InTime (o : Options) (feed : Feed) (waits : List WaitStep)
    (instants : List Duration) : Prop where
  reading : o.throttle = 0 → feed.duration < Duration.limit
  pacing : o.throttle ≠ 0 → feed.pacedSpan waits < Duration.horizon
  product : o.throttle ≠ 0 → o.throttle * feed.pacedSpan waits < productLimit
  reporting : ∀ every, o.rateEvery = some every →
    every < Duration.horizon ∧ ∀ now ∈ instants, now + every < Duration.horizon
  count : (o.cut feed.delivered).length < countLimit

theorem Options.InTime.punctual {o : Options} {feed : Feed} {waits : List WaitStep}
    {instants : List Duration} (h : o.InTime feed waits instants) :
    o.Punctual (.ofFeed feed waits) (.feed feed waits) instants := by
  have hspan : (Supply.ofFeed feed waits).runSpan o (.feed feed waits) =
      if o.throttle = 0 then feed.duration else feed.pacedSpan waits := by
    change feed.duration + (0 + Relay.pausesOf o) * _ = _
    rw [Nat.zero_add, Relay.pausesOf]
    split
    · rw [Nat.zero_mul, Nat.add_zero]
    · rfl
  refine ⟨?_, fun hthrottle => ?_, fun hthrottle => ?_, h.reporting, h.count⟩
  · rw [hspan]
    split
    · next hthrottle => exact h.reading hthrottle
    · next hthrottle => exact Nat.lt_trans (h.pacing hthrottle) (by decide)
  · rw [hspan, if_neg hthrottle]
    exact h.pacing hthrottle
  · rw [hspan, if_neg hthrottle]
    exact h.product hthrottle

theorem Progress.start?_of_lt {outlet : ProgressOutlet} {d : Nat} {rateEvery : Option Duration}
    (h : ∀ every, rateEvery = some every → every < Duration.horizon) :
    start? outlet d rateEvery = .ok (start outlet d rateEvery) := by
  unfold start?
  split
  · rfl
  · next every =>
    rw [Duration.moment?_of_lt (h every rfl)]
    rfl

/-- **A number that a run over a feed needs is too large** when its clock stands at `clock`: a read
    takes it past the last span, a limiter has no such moment or no such product, the deadline of a
    rate line has no moment, or the input cannot be counted. A limiter takes no less than a quantum
    for the time so far. -/
inductive Options.Overruns (o : Options) (feed : Feed) (instants : List Duration)
    (clock : Duration) : Prop where
  | reading (hlate : Duration.limit ≤ clock + feed.duration)
  | pacing (hthrottle : o.throttle ≠ 0) (hlate : Duration.horizon ≤ clock)
  | product (hthrottle : o.throttle ≠ 0) (hlarge : productLimit ≤ o.throttle * max quantum clock)
  | reporting {every : Duration} (hevery : o.rateEvery = some every)
      (hlate : Duration.horizon ≤ every ∨ ∃ now ∈ instants, Duration.horizon ≤ now + every)
  | counting (hlarge : countLimit ≤ (o.cut feed.delivered).length)

/-- **The moment by which a run over these sources is over.** -/
def Supply.deadline (F : Supply) (o : Options) (r : Relay) : Duration :=
  r.clock + F.span r.source + (F.perRead + Relay.pausesOf o) * (r.budget + 1)

namespace Relay

variable {F : Supply} {o : Options} {instants : List Duration} {r r' r₁ r₂ : Relay} {halt : Halt}
  {permit : Nat} {whole input released : Bytes} {clock : Duration} {overflow : Overflow}

/-! ### Reads and pauses -/

/-- No turn puts the end of a run off. -/
theorem Spends.deadline_le (h : Spends F o r r') : F.deadline o r' ≤ F.deadline o r := by
  -- each turn is paid for by the one that it takes off the budget
  have hturns : (F.perRead + pausesOf o) + (F.perRead + pausesOf o) * (r'.budget + 1) ≤
      (F.perRead + pausesOf o) * (r.budget + 1) := by
    rw [Nat.add_comm, ← Nat.mul_succ]
    exact Nat.mul_le_mul_left _ (Nat.succ_le_succ h.budget)
  refine Nat.le_trans (Nat.add_le_add_right h.spent _) ?_
  rw [Nat.add_assoc]
  exact Nat.add_le_add_left hturns _

/-- There is time for the next read. -/
theorem add_perRead_le_deadline (F : Supply) (o : Options) (r : Relay) :
    r.clock + F.span r.source + F.perRead ≤ F.deadline o r := by
  refine Nat.add_le_add_left ?_ _
  exact Nat.le_trans (Nat.le_add_right _ _) (Nat.le_mul_of_pos_right _ (Nat.succ_pos _))

theorem quantum_le_deadline (F : Supply) (r : Relay) (hthrottle : o.throttle ≠ 0) :
    quantum ≤ F.deadline o r := by
  have hpauses : quantum ≤ pausesOf o := by
    rw [pausesOf, if_neg hthrottle]
    decide
  have hturn : pausesOf o ≤ (F.perRead + pausesOf o) * (r.budget + 1) :=
    Nat.le_trans (Nat.le_add_left _ _) (Nat.le_mul_of_pos_right _ (Nat.succ_pos _))
  exact Nat.le_trans hpauses (Nat.le_trans hturn (Nat.le_add_left _ _))

/-- Time does not run out before a run is over, neither for its reads nor for its limiter. -/
structure Prompt (F : Supply) (o : Options) (r : Relay) : Prop where
  reading : F.deadline o r < Duration.limit
  pacing : o.throttle ≠ 0 → F.deadline o r < Duration.horizon
  product : o.throttle ≠ 0 → o.throttle * F.deadline o r < productLimit

theorem Prompt.turn (h : Prompt F o r) (hspends : Spends F o r r') : Prompt F o r' := by
  have hle := hspends.deadline_le
  refine ⟨Nat.lt_of_le_of_lt hle h.reading, fun hthrottle => ?_, fun hthrottle => ?_⟩
  · exact Nat.lt_of_le_of_lt hle (h.pacing hthrottle)
  · exact Nat.lt_of_le_of_lt (Nat.mul_le_mul_left _ hle) (h.product hthrottle)

/-- **A number that a turn needs is too large**, when its clock has come to `clock` after the read
    or the wait: as for a whole run, with the time that is laid down for what is left to read. -/
inductive Overruns (F : Supply) (o : Options) (instants : List Duration) (whole : Bytes)
    (r : Relay) (clock : Duration) : Prop where
  | reading (hclock : r.clock ≤ clock)
      (hlate : Duration.limit ≤ r.clock + F.span r.source + F.perRead)
  | pacing (hthrottle : o.throttle ≠ 0) (hclock : clock ≤ r.clock + F.span r.source + F.perRead)
      (hlate : Duration.horizon ≤ clock ∨ productLimit ≤ o.throttle * max quantum clock)
  | reporting {every now : Duration} (hevery : o.rateEvery = some every) (hnow : now ∈ instants)
      (hlate : Duration.horizon ≤ now + every)
  | counting (hlarge : countLimit ≤ (o.cut whole).length)

/-- **No number of a prompt relay is too large**, if its deadlines can be told and its input be
    counted. -/
theorem Prompt.not_overruns (h : Prompt F o r)
    (hreporting : ∀ every, o.rateEvery = some every →
      ∀ now ∈ instants, now + every < Duration.horizon)
    (hcount : (o.cut whole).length < countLimit) : ¬ Overruns F o instants whole r clock := by
  have hsoon := add_perRead_le_deadline F o r
  rintro (⟨_, hlate⟩ | ⟨hthrottle, hclock, hlate | hlarge⟩ | ⟨hevery, hnow, hlate⟩ | hlarge)
  · exact Nat.not_lt_of_le (Nat.le_trans hlate hsoon) h.reading
  · exact Nat.not_lt_of_le (Nat.le_trans hlate (Nat.le_trans hclock hsoon)) (h.pacing hthrottle)
  · have htime : max quantum clock ≤ F.deadline o r :=
      Nat.max_le.2 ⟨quantum_le_deadline F r hthrottle, Nat.le_trans hclock hsoon⟩
    have hproduct := Nat.le_trans hlarge (Nat.mul_le_mul_left o.throttle htime)
    exact Nat.not_lt_of_le hproduct (h.product hthrottle)
  · exact Nat.not_lt_of_le hlate (hreporting _ hevery _ hnow)
  · exact Nat.not_lt_of_le hlarge hcount

/-- **A limiter that cannot reckon has run out of time** or of products. -/
theorem Paced.overruns (h : Paced o r) (hnot : ¬ r.Reckons) :
    o.throttle ≠ 0 ∧
      (Duration.horizon ≤ r.clock ∨ productLimit ≤ o.throttle * max quantum r.clock) := by
  have hpaced := h.limiter
  split at hpaced
  · refine absurd (fun limiter hmem => ?_) hnot
    rw [hpaced] at hmem
    cases hmem
  · next hthrottle =>
    refine ⟨hthrottle, ?_⟩
    by_contra hfits
    rw [not_or, Nat.not_le, Nat.not_le] at hfits
    refine hnot fun limiter hmem => ?_
    rw [hpaced] at hmem
    cases hmem
    have helapsed : Limiter.elapsed ⟨o.throttle, 0, r.bytesReleased⟩ r.clock ≤
        max quantum r.clock := by
      rw [Limiter.elapsed]
      split
      · exact Nat.le_max_left _ _
      · exact Nat.le_max_right _ _
    have hproduct := Nat.lt_of_le_of_lt (Nat.mul_le_mul_left o.throttle helapsed) hfits.2
    exact Or.inr (Or.inr ⟨hfits.1, hproduct⟩)

/-! ### Progress -/

/-- Progress is told of what was released, and the clock is looked at when it was laid down. -/
structure Reporting (o : Options) (instants : List Duration) (r : Relay) : Prop where
  tally : Progress.Tally .working o.dotEvery o.rateEvery r.bytesReleased r.progress
  instants : r.instants <:+ instants

theorem Reporting.congr (h : Reporting o instants r) (hprogress : r'.progress = r.progress)
    (hreleased : r'.bytesReleased = r.bytesReleased) (hinstants : r'.instants = r.instants) :
    Reporting o instants r' := by
  constructor
  · rw [hprogress, hreleased]
    exact h.tally
  · rw [hinstants]
    exact h.instants

theorem Reporting.serve (h : Reporting o instants r) (hserves : Serves r r') :
    Reporting o instants r' := by
  refine ⟨hserves.tally h.tally, ?_⟩
  rw [hserves.instants]
  exact h.instants

/-- **Looking for a due rate line changes nothing but progress**, or there is a deadline that has no
    moment. -/
theorem Reporting.tick (h : Reporting o instants r) :
    (∃ left progress journal, r.tick = .ok { r with instants := left, progress, journal } ∧
      Reporting o instants { r with instants := left, progress, journal }) ∨
    (∃ e relay, r.tick = .error ⟨.overflow e, relay⟩) ∧
      ∃ every, o.rateEvery = some every ∧ ∃ now ∈ instants, Duration.horizon ≤ now + every := by
  have hticking := r.ticking
  generalize r.tick = result at hticking ⊢
  cases hticking with
  | off _ => exact Or.inl ⟨r.instants, r.progress, r.journal, rfl, h⟩
  | @overflowed now left _ _ e hinstants htick _ =>
    -- the moments to come are some of those laid down, and this one failed
    refine Or.inr ⟨⟨e, _, rfl⟩, ?_⟩
    have hnow : now ∈ instants := h.instants.subset (hinstants ▸ List.mem_cons_self)
    by_contra hnone
    have hlook : ∃ q, (r.progress.tick? now).2 = .ok q :=
      Progress.exists_tick? fun every hevery => by
        rw [h.tally.rateEvery] at hevery
        exact Nat.lt_of_not_le fun hlate => hnone ⟨every, hevery, now, hnow, hlate⟩
    obtain ⟨q, hok⟩ := hlook
    rw [htick] at hok
    cases hok
  | @looked now left _ progress journal hinstants htick _ =>
    have hleft : left <:+ instants := (hinstants ▸ List.suffix_cons now left).trans h.instants
    exact Or.inl ⟨left, progress, journal, rfl, h.tally.tick htick, hleft⟩

/-! ### Releasing -/

/-- A relay that has read and vouched, and releases bytes of `whole` only. -/
structure Poised (o : Options) (instants : List Duration) (whole : Bytes) (r : Relay) :
    Prop where
  paced : Paced o r
  reporting : Reporting o instants r
  within : r.bytesReleased + r.ready.length ≤ (o.cut whole).length

/-- A release that cannot be counted is of a whole that cannot be counted. -/
theorem Poised.counting (h : Poised o instants whole r) (hpermit : permit ≤ r.ready.length)
    (hlarge : (∃ e, r.progress.advance? (r.portion permit).used = .error e) ∨
      countLimit ≤ r.bytesReleased + (r.portion permit).used) :
    countLimit ≤ (o.cut whole).length := by
  have hwithin := h.within
  have hused := r.portion_used_le permit
  rcases hlarge with ⟨e, hlarge⟩ | hlarge
  · have := h.reporting.tally.le_of_advance? hlarge
    omega
  · omega

/-- The limiter counts the same. -/
theorem Poised.limiter_counting (h : Poised o instants whole r) (hpermit : permit ≤ r.ready.length)
    (hlarge : ∃ limiter, r.limiter = some limiter ∧
      countLimit ≤ limiter.released + (r.portion permit).used) :
    countLimit ≤ (o.cut whole).length := by
  obtain ⟨limiter, hlimiter, hlarge⟩ := hlarge
  have hpaced := h.paced.limiter
  rw [hlimiter] at hpaced
  split at hpaced
  · cases hpaced
  · cases hpaced
    exact h.counting hpermit (Or.inr hlarge)

/-- **Releasing fails for want of a number only if the limiter cannot reckon**, or the whole cannot
    be counted. -/
theorem Poised.serve_error (h : Poised o instants whole r)
    (hvalidated : r.validated ≤ r.buffer.length) (hserve : r.releaseReady = .error halt)
    (hover : halt.error = .overflow overflow) :
    halt.relay = r ∧ ¬ r.Reckons ∨ countLimit ≤ (o.cut whole).length := by
  have hserving := r.serving
  rw [hserve] at hserving
  cases hserving with
  | unreckoned _ hnot => exact Or.inl ⟨rfl, hnot⟩
  | failed _ hsome _ hrelease =>
    have hready := (granted_ready hvalidated hsome).2
    cases hrelease with
    | notPassed _ _ _ _ => cases hover
    | notStored _ _ _ _ => cases hover
    | overflowed e _ _ _ hlarge _ =>
      exact Or.inr (h.counting hready (hlarge.imp_left fun hadvance => ⟨e, hadvance⟩))
  | uncounted _ _ hsome _ hrelease hlarge =>
    have hready := (granted_ready hvalidated hsome).2
    cases hrelease with
    | released _ _ _ _ _ _ => exact Or.inr (h.limiter_counting hready hlarge)

/-! ### Whole turns -/

/-- **A relay whose accounts are in order**, over a source that brings `whole`. -/
structure Accounted (F : Supply) (o : Options) (instants : List Duration)
    (whole input released : Bytes) (r : Relay) : Prop where
  ledger : Ledger o input released r
  intake : Intake F o whole input r
  paced : Paced o r
  reporting : Reporting o instants r

/-- A read that takes longer than the clock can tell, or brings more than can be counted, is of a
    source that does. -/
theorem Accounted.attempt_overruns (h : Accounted F o instants whole input released r)
    (hsees : F.sees r.disk) (hended : r.ended = false) {answer : ReadResult Source}
    (hattempt : r.source.Attempt r.disk r.asked answer) (hclock : r.clock ≤ clock)
    (hlarge : Duration.limit ≤ r.clock + answer.elapsed ∨
      countLimit ≤ r.bytesRead + answer.reading.given.length) :
    Overruns F o instants whole r clock := by
  rcases hlarge with hlate | hlarge
  · -- what the read took is part of what the source has laid down
    have hyields := F.attempt h.intake.covers hsees (asked_pos h.ledger hended) hattempt
    have helapsed := Nat.le_trans (Nat.le_add_right _ _) hyields.elapsed
    refine .reading hclock (Nat.le_trans hlate ?_)
    rw [Nat.add_assoc, Nat.add_comm (F.span r.source)]
    exact Nat.add_le_add_left helapsed _
  · have hwithin := h.intake.length_attempt_le h.ledger hsees hended hattempt
    exact .counting (Nat.le_trans hlarge hwithin)

/-- **What releasing finds after a relay has read and vouched.** -/
theorem Accounted.vouch (h : Accounted F o instants whole input released r)
    (hsees : F.sees r.disk) (hbusy : r.isDone = false) (hfilled : r.filled = .ok r₁)
    (hvalidate : r₁.validate = .ok r₂) :
    Poised o instants whole r₂ ∧ r₂.clock ≤ r.clock + F.span r.source + F.perRead := by
  have hfills := h.ledger.fills h.intake.covers hsees hfilled
  have harrived := h.ledger.arrive hbusy hfilled
  have hvouched := harrived.vouch hvalidate
  obtain ⟨rest, hcut, _⟩ := (h.intake.arrive h.ledger hsees hfilled).cut_eq fun hcap =>
    (harrived.capped hcap).1
  have hlength := hvouched.vouched.length_le
  rw [List.length_append, ← hvouched.bytesReleased] at hlength
  obtain ⟨⟨_, _, _, _, _, _, hr₁⟩, _⟩ := filled_frame h.ledger.validated_le hfilled
  obtain ⟨_, _, _, hr₂, hcapacity⟩ := validate_frame hvalidate
  have hlimiter : r₂.limiter = r.limiter := by rw [hr₂, hr₁]
  have hreleased : r₂.bytesReleased = r.bytesReleased := by rw [hr₂, hr₁]
  have hpaced : Paced o r₂ := by
    constructor
    · rw [hlimiter, hreleased]
      exact h.paced.limiter
    · rw [hr₂, hcapacity]
      exact Nat.le_trans h.paced.capacity hfills.capacity
  refine ⟨⟨hpaced, h.reporting.congr ?_ hreleased ?_, ?_⟩, ?_⟩
  · rw [hr₂, hr₁]
  · rw [hr₂, hr₁]
  · rw [hcut, List.length_append]
    omega
  · rw [hr₂]
    exact Nat.le_trans (Nat.le_add_right _ _) hfills.spent

/-- **Every turn keeps the accounts in order.** -/
theorem Accounted.turn (h : Accounted F o instants whole input released r) (hsees : F.sees r.disk)
    (hbusy : r.isDone = false) (hturn : r.turn = .ok r') (hsees' : F.sees r'.disk) :
    ∃ block, Accounted F o instants whole (input ++ r.arrival) (released ++ block) r' := by
  have hspends := h.ledger.turn_budget h.paced h.intake.covers hsees hbusy hturn hsees'
  have hintake := h.intake.turn h.ledger hsees hturn
  obtain ⟨block, hledger⟩ := h.ledger.turn hbusy hturn
  refine ⟨block, hledger, hintake, hspends.paced, ?_⟩
  obtain ⟨r₁, r₂, r₃, hfilled, hvalidate, hserve, htick⟩ := turn_ok hturn
  have hserves := serves ((h.ledger.arrive hbusy hfilled).vouch hvalidate).validated_le hserve
  have hreporting := (h.vouch hsees hbusy hfilled hvalidate).1.reporting.serve hserves
  rcases hreporting.tick with ⟨_, _, _, hok, hlooked⟩ | ⟨⟨_, _, herror⟩, _⟩
  · rw [htick] at hok
    cases hok
    exact hlooked
  · rw [htick] at herror
    cases herror

/-- **A turn that fails for want of a number has met one that is too large.** -/
theorem Accounted.turn_error (h : Accounted F o instants whole input released r)
    (hsees : F.sees r.disk) (hbusy : r.isDone = false) (hturn : r.turn = .error halt)
    (hover : halt.error = .overflow overflow) :
    Overruns F o instants whole r halt.relay.clock := by
  -- the clock and the counts can fail the read, the limiter and the counts the release, and the
  -- deadlines the rate line; vouching needs no number
  rcases Relay.turn_error hturn with
    hfilled | ⟨r₁, hfilled, hvalidate | ⟨r₂, hvalidate, hserve | ⟨r₃, hserve, htick⟩⟩⟩
  · have hfilling := r.filling
    rw [hfilled] at hfilling
    cases hfilling with
    | refused _ _ _ _ => cases hover
    | waitFailed _ _ _ => cases hover
    | overflowed _ hended hattempt hlarge _ hlater =>
      exact h.attempt_overruns hsees hended hattempt hlater hlarge
    | failed _ _ _ _ => cases hover
  · obtain ⟨_, _, rfl, _⟩ := validate_error (h.ledger.arrive hbusy hfilled).unseen hvalidate
    cases hover
  · have hvouched := (h.ledger.arrive hbusy hfilled).vouch hvalidate
    obtain ⟨hpoised, hclock⟩ := h.vouch hsees hbusy hfilled hvalidate
    rcases hpoised.serve_error hvouched.validated_le hserve hover with ⟨hsame, hnot⟩ | hlarge
    · obtain ⟨hthrottle, hlate⟩ := hpoised.paced.overruns hnot
      rw [hsame]
      exact .pacing hthrottle hclock hlate
    · exact .counting hlarge
  · have hserves := serves ((h.ledger.arrive hbusy hfilled).vouch hvalidate).validated_le hserve
    have hreporting := (h.vouch hsees hbusy hfilled hvalidate).1.reporting.serve hserves
    rcases hreporting.tick with ⟨_, _, _, hok, _⟩ | ⟨_, every, hevery, now, hnow, hlate⟩
    · rw [htick] at hok
      cases hok
    · exact .reporting hevery hnow hlate

/-! ### Whole runs -/

variable {options : Options} {source : Source} {feed : Feed} {waits : List WaitStep}
  {sinks : Sinks} {disk : Disk} {machine : Machine} {first mid : Relay} {outcome : Outcome}

/-- The accounts of the first relay of a run are in order. -/
theorem Starts.accounted (h : Starts options source sinks disk machine first)
    (hcovers : F.covers source) :
    Accounted F options.settled machine.instants (F.rest source) [] [] first := by
  have hintake := h.intake hcovers
  have hpaced := h.paced.1
  have hledger := h.ledger
  obtain ⟨warnings, buffer, progress, bytes, journal, _, _, hprogress, hfirst⟩ := h.eq
  refine ⟨hledger, hintake, hpaced, ?_⟩
  rw [hfirst, Progress.start?_ok hprogress]
  exact ⟨Progress.tally_start _ _ _, List.suffix_rfl⟩

/-- **It has its time before it**, if the time that the run may take can be kept. -/
theorem Starts.prompt (h : Starts options source sinks disk machine first)
    (hcovers : F.covers source) (hsees : F.sees disk)
    (hpunctual : options.Punctual F source machine.instants) :
    Prompt F options.settled first := by
  obtain ⟨_, hclock, hbudget⟩ := h.paced
  have hdeadline : F.deadline options.settled first ≤ F.runSpan options source := by
    rw [enoughTurns, h.source_eq.1, h.files.2, F.extent hcovers hsees] at hbudget
    rw [Supply.deadline, hclock, h.source_eq.1, Nat.zero_add]
    exact Nat.add_le_add_left (Nat.mul_le_mul_left _ hbudget) _
  refine ⟨Nat.lt_of_le_of_lt hdeadline hpunctual.reading, fun hthrottle => ?_, fun hthrottle => ?_⟩
  · exact Nat.lt_of_le_of_lt hdeadline (hpunctual.pacing hthrottle)
  · exact Nat.lt_of_le_of_lt (Nat.mul_le_mul_left _ hdeadline) (hpunctual.product hthrottle)

/-- The rest of a feed lets no more time pass than all of it. -/
theorem Supply.span_ofFeed_le (h : (Supply.ofFeed feed waits).covers source) :
    (Supply.ofFeed feed waits).span source ≤ feed.duration := by
  obtain ⟨feed', waits', rfl, hsteps, _⟩ := h
  exact Feed.spanOf_le hsteps

theorem Reaches.accounted (hreaches : Reaches first input mid)
    (hstarts : Starts options (.feed feed waits) sinks disk machine first) :
    (∃ released, Accounted (.ofFeed feed waits) options.settled machine.instants feed.delivered
      input released mid) ∧
      (options.InTime feed waits machine.instants →
        Prompt (.ofFeed feed waits) options.settled mid) := by
  have hcovers := Supply.covers_ofFeed feed waits
  refine hreaches.preserves (P := fun input r => (∃ released, Accounted (.ofFeed feed waits)
    options.settled machine.instants feed.delivered input released r) ∧
      (options.InTime feed waits machine.instants →
        Prompt (.ofFeed feed waits) options.settled r)) ?_
    ⟨⟨[], hstarts.accounted hcovers⟩, fun htime => hstarts.prompt hcovers trivial htime.punctual⟩
  rintro input r r' ⟨⟨released, haccounted⟩, hprompt⟩ hbusy hturn
  obtain ⟨block, haccounted'⟩ := haccounted.turn trivial hbusy hturn trivial
  have hspends := haccounted.ledger.turn_budget haccounted.paced haccounted.intake.covers trivial
    hbusy hturn trivial
  exact ⟨⟨_, haccounted'⟩, fun htime => (hprompt htime).turn hspends⟩

/-- A relay that cannot be made for want of a number has no moment for the first rate line. -/
theorem prepare_overflow {warnings : List Event}
    (h : prepare options source sinks disk machine = .error (.overflow overflow, warnings)) :
    ∃ every, options.rateEvery = some every ∧ Duration.horizon ≤ every := by
  unfold prepare at h
  split at h
  · cases h
  · next hvalidate =>
    obtain ⟨rfl, _⟩ := Options.validate_ok hvalidate
    split at h
    · cases h
    · split at h
      · next hprogress =>
        by_contra hnone
        have hsoon (every : Duration) (hevery : options.settled.rateEvery = some every) :
            every < Duration.horizon :=
          Nat.lt_of_not_le fun hlate => hnone ⟨every, hevery, hlate⟩
        rw [Progress.start?_of_lt hsoon] at hprogress
        cases hprogress
      · cases h

/-- **How a run ends for want of a number**: before it starts, as its first rate line has no moment,
    or in a turn. -/
inductive OutOfNumbers (options : Options) (source : Source) (sinks : Sinks) (disk : Disk)
    (machine : Machine) (overflow : Overflow) (clock : Duration) : Prop where
  | unstarted {every : Duration} (hevery : options.rateEvery = some every)
      (hlate : Duration.horizon ≤ every) :
      OutOfNumbers options source sinks disk machine overflow clock
  | halted {first mid : Relay} {input : Bytes} {halt : Halt}
      (hstarts : Starts options source sinks disk machine first)
      (hreaches : Reaches first input mid) (hbusy : mid.isDone = false)
      (hturn : mid.turn = .error halt) (herror : halt.error = .overflow overflow)
      (hclock : clock = halt.relay.clock) :
      OutOfNumbers options source sinks disk machine overflow clock

/-- Neither the start of a framed run nor its end counts anything: what fails there is a sink. -/
theorem outOfNumbers_of_run (hrun : run options source sinks disk machine = some outcome)
    (hresult : outcome.result = .error (.overflow overflow)) :
    OutOfNumbers options source sinks disk machine overflow outcome.clock := by
  cases course hrun with
  | @unprepared cause warnings hprepare houtcome =>
    rw [houtcome] at hresult
    cases hresult
    obtain ⟨every, hevery, hlate⟩ := prepare_overflow hprepare
    exact .unstarted hevery hlate
  | unopened hprepare hbegin houtcome =>
    obtain ⟨⟨s, hsink⟩, _⟩ := begin_error hprepare hbegin
    rw [houtcome] at hresult
    cases hsink.symm.trans (Except.error.inj hresult)
  | halted hstarts hreaches hbusy hturn _ houtcome =>
    rw [houtcome] at hresult ⊢
    exact .halted hstarts hreaches hbusy hturn (Except.error.inj hresult) rfl
  | closed hstarts hreaches hdone houtcome =>
    obtain ⟨released, hledger⟩ := hreaches.ledger hstarts.ledger
    rw [houtcome] at hresult
    rcases (hledger.finish hdone).2.2 with ⟨report, hok, _⟩ | ⟨s, hfailed⟩
    · rw [hok] at hresult
      cases hresult
    · rw [hfailed] at hresult
      cases hresult

/-- **A run over a feed that ends for want of a number has come to one that is too large**, and
    could not be known to keep its numbers. -/
theorem overruns_of_run (hrun : run options (.feed feed waits) sinks disk machine = some outcome)
    (hresult : outcome.result = .error (.overflow overflow)) :
    options.Overruns feed machine.instants outcome.clock ∧
      ¬ options.InTime feed waits machine.instants := by
  cases outOfNumbers_of_run hrun hresult with
  | @unstarted every hevery hlate =>
    refine ⟨.reporting hevery (Or.inl hlate), fun htime => ?_⟩
    exact Nat.not_lt_of_le hlate (htime.reporting every hevery).1
  | @halted stood mid input halt hstarts hreaches hbusy hturn herror hend =>
    obtain ⟨⟨released, haccounted⟩, hprompt⟩ := hreaches.accounted hstarts
    have hoverruns := haccounted.turn_error trivial hbusy hturn herror
    rw [hend]
    constructor
    · have hspan := Supply.span_ofFeed_le haccounted.intake.covers
      rcases hoverruns with
        ⟨hclock, hlate⟩ | ⟨hthrottle, _, hlate | hlarge⟩ | ⟨hevery, hnow, hlate⟩ | hlarge
      · have hwhole : mid.clock + (Supply.ofFeed feed waits).span mid.source ≤
            halt.relay.clock + feed.duration := Nat.add_le_add hclock hspan
        exact .reading (Nat.le_trans hlate hwhole)
      · exact .pacing hthrottle hlate
      · exact .product hthrottle hlarge
      · exact .reporting hevery (Or.inr ⟨_, hnow, hlate⟩)
      · exact .counting hlarge
    · intro htime
      have hdeadlines (every : Duration) (hevery : options.settled.rateEvery = some every) :=
        (htime.reporting every hevery).2
      exact (hprompt htime).not_overruns hdeadlines htime.count hoverruns

end Relay

end StreamRelay
