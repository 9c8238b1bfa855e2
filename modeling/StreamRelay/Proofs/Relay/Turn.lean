/-
  StreamRelay/Proofs/Relay/Turn.lean
  ==================================
  **What each part of a turn can do.**

  One lemma for each part says what a relay is after it succeeded, and one what it is when it failed
  and why. What is said of a turn or of a whole run is read off these, so nothing else looks into
  the parts of a turn.
-/
import StreamRelay.Relay
import StreamRelay.Proofs.Sink.Passing
import StreamRelay.Proofs.Source.Delivery

namespace StreamRelay

namespace Relay

variable {r r' : Relay} {halt : Halt}

/-! ### Accounts of time and progress -/

@[simp] theorem log_nil (r : Relay) : r.log [] = r := by
  simp [log]

def progressing (text : String) : List Event := if text.isEmpty then [] else [.progressed text]

def pausing (span : Duration) : List Event := if span = 0 then [] else [.paused span]

theorem passedBy_progressing (text : String) : passedBy (progressing text) = [] := by
  unfold progressing
  split <;> rfl

theorem passedBy_pausing (span : Duration) : passedBy (pausing span) = [] := by
  unfold pausing
  split <;> rfl

theorem logProgress_eq (r : Relay) (text : String) :
    r.logProgress text = r.log (progressing text) := by
  unfold logProgress progressing
  split
  · rw [log_nil]
  · rfl

theorem pause_eq (r : Relay) (span : Duration) :
    r.pause span = { r with clock := r.clock + span }.log (pausing span) := by
  unfold pause pausing
  split
  · next hzero =>
    rw [hzero, log_nil]
    rfl
  · rfl

/-! ### Reading -/

/-- What the buffer holds at most when it is read into: a full one is grown before. -/
def room (r : Relay) : Nat :=
  if r.buffer.isFull then r.buffer.capacity + max r.buffer.capacity 1 else r.buffer.capacity

/-- The most bytes that the next read may bring: what fits, and what the cap on the input leaves. -/
def asked (r : Relay) : Nat :=
  if r.options.stopAfter = 0 then r.room - r.buffer.length
  else min (r.options.stopAfter - r.bytesRead) (r.room - r.buffer.length)

/-- A buffer that a relay may read into: its own, grown if that was full. -/
structure Roomy (r : Relay) (buffer : ReadBuffer) : Prop where
  view : buffer.view = r.buffer.view
  capacity : buffer.capacity = r.room

/-- What is asked for depends on the room in the buffer and on nothing that growing or waiting
    changes. -/
theorem Roomy.spare_eq {buffer : ReadBuffer} (h : r.Roomy buffer) (source : Source)
    (journal : Journal) :
    (buffer.spare { r with buffer, source, journal }.wanted).2 = r.asked := by
  have hlength : buffer.length = r.buffer.length := by
    rw [← buffer.length_view, h.view, ReadBuffer.length_view]
  rw [ReadBuffer.spare_snd, wanted, asked, h.capacity, hlength]
  dsimp only
  split
  · exact Nat.min_eq_right (Nat.sub_le _ _)
  · rfl

/-- A reading is the last: it is the end of the input, or reaches the cap. -/
def endsWith (r : Relay) : Reading → Bool
  | .bytes given =>
      decide (0 < r.options.stopAfter ∧ r.options.stopAfter ≤ r.bytesRead + given.length)
  | .endOfInput => true
  | _ => r.ended

def receive (r : Relay) (buffer : ReadBuffer) (answer : ReadResult Source) (journal : Journal) :
    Relay :=
  { r with
    buffer
    source := answer.source
    clock := r.clock + answer.elapsed
    bytesRead := r.bytesRead + answer.reading.given.length
    ended := r.endsWith answer.reading
    journal }

def filled (r : Relay) : Except Halt Relay := if r.ended then .ok r else r.fill

/-- How the reading of a turn goes. There is nothing to do or no room, or the buffer cannot be
    grown; the wait for input fails, or ends without any; or the source is read, and the time or the
    count of bytes cannot be kept, the read fails, or an answer is received. -/
inductive Filling (r : Relay) : Except Halt Relay → Prop where
  | idle (hwhy : r.ended ∨ r.buffer.isFull ∧ r.options.readAll = false) : Filling r (.ok r)
  | refused {bytes : Nat} (hended : r.ended = false) (hfull : r.buffer.isFull)
      (hall : r.options.readAll)
      (hgrow : r.buffer.grow? r.memory = .error bytes) : Filling r (.error ⟨.allocation bytes, r⟩)
  | waitFailed {buffer : ReadBuffer} {source : Source} {journal : Journal} {fault : Fault}
      (hended : r.ended = false)
      (hwait : r.source.wait.1 = .error fault) (hjournal : r.journal.Extends journal []) :
      Filling r (.error ⟨.wait fault, { r with buffer, source, journal }⟩)
  | overflowed {answer : ReadResult Source} {buffer : ReadBuffer} {journal : Journal}
      {clock : Duration} (e : Overflow) (hended : r.ended = false)
      (hattempt : r.source.Attempt r.disk r.asked answer)
      (hlarge : Duration.limit ≤ r.clock + answer.elapsed ∨
        countLimit ≤ r.bytesRead + answer.reading.given.length)
      (hjournal : r.journal.Extends journal []) (hlater : r.clock ≤ clock) :
      Filling r (.error ⟨.overflow e, { r with buffer, source := answer.source, clock, journal }⟩)
  | failed {answer : ReadResult Source} {buffer : ReadBuffer} {journal : Journal} {clock : Duration}
      {fault : Fault}
      (hended : r.ended = false) (hattempt : r.source.Attempt r.disk r.asked answer)
      (hreading : answer.reading = .failed fault) (hjournal : r.journal.Extends journal []) :
      Filling r (.error ⟨.read fault, { r with buffer, source := answer.source, clock, journal }⟩)
  | received {answer : ReadResult Source} {buffer : ReadBuffer} {journal : Journal}
      (hended : r.ended = false)
      (hattempt : r.source.Attempt r.disk r.asked answer)
      (hreading : ∀ fault, answer.reading ≠ .failed fault)
      (hview : buffer.view = r.buffer.view ++ answer.reading.given)
      (hcapacity : buffer.capacity = r.room)
      (hjournal : r.journal.Extends journal [])
      (hend : answer.reading = .endOfInput → Event.read r.asked .endOfInput ∈ journal) :
      Filling r (.ok (r.receive buffer answer journal))

/-- Bytes that were read are taken in, unless they are too many to be counted. -/
theorem take_cases (r : Relay) (want : Nat) (given : Bytes) :
    (∃ e, r.take want given = .error ⟨.overflow e,
        { r with buffer := r.buffer.append given
                 journal := r.journal ++ [Event.read want (.bytes given.length)] }⟩ ∧
      countLimit ≤ r.bytesRead + given.length) ∨
    r.take want given = .ok
      { r with buffer := r.buffer.append given
               bytesRead := r.bytesRead + given.length
               ended := r.endsWith (.bytes given)
               journal := r.journal ++ [Event.read want (.bytes given.length)] } := by
  unfold take
  dsimp only [log]
  rcases hcount : addCount? r.bytesRead given.length with e | bytesRead
  · exact Or.inl ⟨e, rfl, (addCount?_eq_error hcount).2⟩
  · obtain ⟨rfl, -⟩ := addCount?_eq_ok hcount
    exact Or.inr rfl

theorem filling_readInput {buffer : ReadBuffer} {source : Source} {journal : Journal}
    (hended : r.ended = false) (hroom : r.Roomy buffer)
    (hattempt : r.source.Attempt r.disk r.asked (source.read r.disk r.asked))
    (hjournal : r.journal.Extends journal []) :
    r.Filling { r with buffer, source, journal }.readInput := by
  have hasked := hroom.spare_eq source journal
  have hfits := hattempt.bounded.length_given_le
  have hspace : r.asked ≤ (buffer.spare { r with buffer, source, journal }.wanted).1.capacity -
      (buffer.spare { r with buffer, source, journal }.wanted).1.data.size := by
    rw [← hasked]
    exact Nat.min_le_right _ _
  have hcapacity : (buffer.spare { r with buffer, source, journal }.wanted).1.capacity = r.room :=
    buffer.capacity_compact.trans hroom.capacity
  have hview : (buffer.spare { r with buffer, source, journal }.wanted).1.view = r.buffer.view :=
    (buffer.view_spare _).trans hroom.view
  unfold readInput
  dsimp only
  rw [hasked]
  generalize (buffer.spare { r with buffer, source, journal }.wanted).1 =
    spare at hspace hcapacity hview
  generalize source.read r.disk r.asked = answer at hattempt hfits
  have hview' : (spare.append answer.reading.given).view =
      r.buffer.view ++ answer.reading.given := by
    rw [ReadBuffer.view_append (Nat.le_trans hfits hspace), hview]
  unfold Duration.add?
  by_cases hclock : r.clock + answer.elapsed < Duration.limit
  · simp only [if_pos hclock]
    obtain ⟨reading, elapsed, after⟩ := answer
    -- only a reading of bytes brings any, and its count may be too large
    cases reading with
    | bytes given =>
      have hread := hjournal.quiet (.log journal [.read r.asked (.bytes given.length)])
      dsimp only
      rcases take_cases _ r.asked given with ⟨e, htake, hlarge⟩ | htake
      · rw [htake]
        exact .overflowed e hended hattempt (Or.inr hlarge) hread (Nat.le_add_right _ _)
      · rw [htake]
        exact .received hended hattempt (fun _ h => Reading.noConfusion h) hview' hcapacity hread
          fun h => Reading.noConfusion h
    | endOfInput =>
      refine .received hended hattempt (fun _ h => Reading.noConfusion h) ?_ hcapacity
        (hjournal.quiet (.log journal [.read r.asked .endOfInput])) fun _ => ?_
      · rw [hview]
        exact (List.append_nil _).symm
      · rw [Array.mem_def]
        simp
    | notReady =>
      refine .received hended hattempt (fun _ h => Reading.noConfusion h) ?_ hcapacity
        (hjournal.quiet (.log journal [.read r.asked .notReady])) fun h => Reading.noConfusion h
      rw [hview]
      exact (List.append_nil _).symm
    | failed fault =>
      exact .failed hended hattempt rfl (hjournal.quiet (.log journal [.read r.asked .failed]))
  · simp only [if_neg hclock]
    exact .overflowed _ hended hattempt (Or.inl (Nat.le_of_not_lt hclock)) hjournal (Nat.le_refl _)

theorem filling_awaitInput {buffer : ReadBuffer} {journal : Journal} (hended : r.ended = false)
    (hroom : r.Roomy buffer) (hjournal : r.journal.Extends journal []) :
    r.Filling { r with buffer, journal }.awaitInput := by
  unfold awaitInput
  by_cases hwaits : r.options.nonBlocking
  · simp only [if_pos hwaits]
    rcases hwait : r.source.wait with ⟨fault | isReady, source⟩
    · have hfailed : r.source.wait.1 = .error fault := by rw [hwait]
      exact .waitFailed hended hfailed (hjournal.quiet (.log journal [.waitFailed]))
    · have hjournal' := hjournal.quiet (.log journal [.waited isReady])
      cases isReady with
      | true => exact filling_readInput hended hroom (.waited hwait) hjournal'
      | false =>
        have hview : buffer.view = r.buffer.view ++ [] := by rw [hroom.view, List.append_nil]
        exact .received hended (.unready hwait) (fun _ h => Reading.noConfusion h) hview
          hroom.capacity hjournal' fun h => Reading.noConfusion h
  · simp only [if_neg hwaits]
    exact filling_readInput hended hroom .direct hjournal

/-- **What can come of the reading of a turn.** -/
theorem filling (r : Relay) : r.Filling r.filled := by
  unfold filled
  cases hended : r.ended with
  | true => exact .idle (Or.inl hended)
  | false =>
    rw [if_neg Bool.noConfusion]
    unfold fill
    by_cases hfull : r.buffer.isFull
    · simp only [if_pos hfull]
      cases hall : r.options.readAll with
      | false => exact .idle (Or.inr ⟨hfull, hall⟩)
      | true =>
        simp only [if_true]
        rcases hgrow : r.buffer.grow? r.memory with bytes | buffer
        · exact .refused hended hfull hall hgrow
        · have hview := ReadBuffer.view_grow? hgrow
          have hroom : r.room = r.buffer.capacity + max r.buffer.capacity 1 := if_pos hfull
          unfold ReadBuffer.grow? at hgrow
          dsimp only at hgrow
          split at hgrow
          · cases hgrow
            exact filling_awaitInput hended ⟨hview, hroom.symm⟩ (.log r.journal [.grew _])
          · cases hgrow
    · simp only [if_neg hfull]
      have hroom : r.room = r.buffer.capacity := if_neg hfull
      exact filling_awaitInput hended ⟨rfl, hroom.symm⟩ (.refl r.journal)

/-! ### Releasing -/

/-- What a release of `permit` bytes writes to the pass-through output, and how many of them it
    takes. -/
def portion (r : Relay) (permit : Nat) : Framing.Encoded :=
  match r.encoder with
  | some _ => Framing.encode (r.buffer.view.take permit) (r.ended && permit == r.buffer.length)
  | none => ⟨r.buffer.view.take permit, permit⟩

def offered (r : Relay) (permit : Nat) : Bytes :=
  if r.sinks.pass.isSome then (r.portion permit).out else []

def block (r : Relay) (permit : Nat) : Bytes :=
  (r.buffer.view.take permit).take (r.portion permit).used

def passing (r : Relay) (permit : Nat) : Effect SinkError Sinks :=
  r.sinks.writePass (r.portion permit).out

def storing (r : Relay) (permit : Nat) : Effect SinkError (Sinks × Disk) :=
  (r.passing permit).state.writeFiles r.disk (r.block permit)

def deliver (r : Relay) (permit : Nat) (sinks : Sinks) (disk : Disk) (progress : Progress)
    (journal : Journal) : Relay :=
  { r with
    sinks, disk, progress, journal
    digest := r.digest.map (Digest.Absorber.absorb · (r.block permit))
    buffer := r.buffer.consume (r.portion permit).used
    validated := r.validated - (r.portion permit).used
    bytesReleased := r.bytesReleased + (r.portion permit).used }

/-- How a release goes: a sink fails; or every sink takes its bytes, and they cannot be counted, or
    are dropped from the buffer. -/
inductive Releasing (r : Relay) (permit : Nat) : Except Halt (Relay × Nat) → Prop where
  | notPassed {e : SinkError} {sinks : Sinks} {journal : Journal} {bytes : Bytes}
      (hpassing : (r.passing permit).result = .error e) (hsinks : sinks = (r.passing permit).state)
      (hpart : bytes <+: r.offered permit) (hjournal : r.journal.Extends journal bytes) :
      Releasing r permit (.error ⟨.sink e, { r with sinks, journal }⟩)
  | notStored {e : SinkError} {sinks : Sinks} {disk : Disk} {journal : Journal}
      (hpassing : (r.passing permit).result = .ok ())
      (hstoring : (r.storing permit).result = .error e)
      (hstate : (sinks, disk) = (r.storing permit).state)
      (hjournal : r.journal.Extends journal (r.offered permit)) :
      Releasing r permit (.error ⟨.sink e,
        { r with sinks, disk, digest := r.digest.map (Digest.Absorber.absorb
          · (r.block permit)), journal }⟩)
  | overflowed {sinks : Sinks} {disk : Disk} {journal : Journal} {progress : Progress}
      {buffer : ReadBuffer} {validated : Nat} (e : Overflow)
      (hpassing : (r.passing permit).result = .ok ())
      (hstoring : (r.storing permit).result = .ok ())
      (hstate : (sinks, disk) = (r.storing permit).state)
      (hlarge : r.progress.advance? (r.portion permit).used = .error e ∨
        countLimit ≤ r.bytesReleased + (r.portion permit).used)
      (hjournal : r.journal.Extends journal (r.offered permit)) :
      Releasing r permit (.error ⟨.overflow e,
        { r with sinks, disk, digest := r.digest.map (Digest.Absorber.absorb · (r.block permit)),
                 progress, buffer, validated, journal }⟩)
  | released {sinks : Sinks} {disk : Disk} {journal : Journal} {text : String}
      {progress : Progress}
      (hpassing : (r.passing permit).result = .ok ())
      (hstoring : (r.storing permit).result = .ok ())
      (hstate : (sinks, disk) = (r.storing permit).state)
      (hadvance : r.progress.advance? (r.portion permit).used = .ok (text, progress))
      (hcount : r.bytesReleased + (r.portion permit).used < countLimit)
      (hjournal : r.journal.Extends journal (r.offered permit)) :
      Releasing r permit
        (.ok (r.deliver permit sinks disk progress journal, (r.portion permit).used))

theorem passedBy_passing (r : Relay) (permit : Nat) :
    passedBy (r.passing permit).events <+: r.offered permit ∧
      ((r.passing permit).result = .ok () →
      passedBy (r.passing permit).events = r.offered permit) := by
  unfold offered passing
  by_cases hpass : r.sinks.pass.isSome
  · rw [if_pos hpass]
    exact ⟨r.sinks.writePass_prefix _, Sinks.writePass_all hpass⟩
  · rw [if_neg hpass, Sinks.writePass_none (by simpa using hpass)]
    exact ⟨List.prefix_rfl, fun _ => rfl⟩

/-- A release is accounted for, or something cannot be counted. -/
inductive Dropping (r : Relay) (n : Nat) : Except Halt Relay → Prop where
  | overflowed {progress : Progress} {buffer : ReadBuffer} {validated : Nat} {journal : Journal}
      (e : Overflow)
      (hlarge : r.progress.advance? n = .error e ∨ countLimit ≤ r.bytesReleased + n)
      (hjournal : r.journal.Extends journal []) :
      Dropping r n (.error ⟨.overflow e, { r with progress, buffer, validated, journal }⟩)
  | dropped {text : String} {progress : Progress} {journal : Journal}
      (hadvance : r.progress.advance? n = .ok (text, progress))
      (hcount : r.bytesReleased + n < countLimit) (hjournal : r.journal.Extends journal []) :
      Dropping r n (.ok
        { r with progress, journal
                 buffer := r.buffer.consume n
                 validated := r.validated - n
                 bytesReleased := r.bytesReleased + n })

theorem dropping (r : Relay) (n : Nat) : r.Dropping n (r.drop n) := by
  unfold drop
  rcases hadvance : r.progress.advance? n with e | ⟨text, progress⟩
  · exact .overflowed e (Or.inl hadvance) (.refl r.journal)
  · have hjournal := Journal.Extends.log_quiet r.journal (passedBy_progressing text)
    dsimp only
    rw [logProgress_eq]
    dsimp only [log]
    rcases hcount : addCount? r.bytesReleased n with e | bytesReleased
    · exact .overflowed e (Or.inr (addCount?_eq_error hcount).2) hjournal
    · obtain ⟨rfl, hfits⟩ := addCount?_eq_ok hcount
      exact .dropped hadvance hfits hjournal

/-- What comes of accounting for a release comes of the release, once every sink has taken it. -/
theorem Dropping.releasing {permit : Nat} {sinks : Sinks} {disk : Disk} {journal : Journal}
    {result : Except Halt Relay}
    (h : Dropping { r with
      sinks, disk, digest := r.digest.map (Digest.Absorber.absorb · (r.block permit)), journal }
      (r.portion permit).used result)
    (hpassing : (r.passing permit).result = .ok ()) (hstoring : (r.storing permit).result = .ok ())
    (hstate : (sinks, disk) = (r.storing permit).state)
    (hjournal : r.journal.Extends journal (r.offered permit)) :
    r.Releasing permit (result.map fun after => (after, (r.portion permit).used)) := by
  cases h with
  | overflowed e hlarge hdropped =>
    exact .overflowed e hpassing hstoring hstate hlarge (hjournal.quiet hdropped)
  | dropped hadvance hcount hdropped =>
    exact .released hpassing hstoring hstate hadvance hcount (hjournal.quiet hdropped)

/-- **What can come of a release.** -/
theorem releasing (r : Relay) (permit : Nat) : r.Releasing permit (r.release permit) := by
  obtain ⟨hpart, hall⟩ := r.passedBy_passing permit
  have hpassed := Journal.Extends.log r.journal (r.passing permit).events
  have hquiet : passedBy (r.storing permit).events = [] := Sinks.passedBy_writeFiles _ _ _
  have hstored := hpassed.quiet (.log_quiet _ hquiet)
  unfold release
  simp only [ReadBuffer.viewTo_eq]
  split
  · next e hpassing => exact .notPassed hpassing rfl hpart hpassed
  · next hpassing =>
    rw [hall hpassing] at hstored
    split
    · next e hstoring => exact .notStored hpassing hstoring rfl hstored
    · next hstoring =>
      have hlogged := hstored.quiet (.log _ [.released (r.portion permit).used])
      exact (dropping _ _).releasing hpassing hstoring rfl hlogged

/-! ### Pacing -/

/-- What a relay grants itself: all that may be released, or what its limiter says. -/
def granted (r : Relay) : Grant :=
  match r.limiter with
  | none => ⟨0, r.releasable⟩
  | some limiter => limiter.grant r.clock r.releasable

/-- The pause after a release of `n` bytes: a limiter waits if nothing was released. -/
def stall (r : Relay) (n : Nat) : Duration := if r.limiter.isSome ∧ n = 0 then quantum else 0

def paced (r : Relay) (n : Nat) : Option Limiter :=
  r.limiter.map fun limiter => { limiter with released := limiter.released + n }

/-- The limiter can reckon now, if there is one. -/
def Reckons (r : Relay) : Prop :=
  ∀ limiter ∈ r.limiter, limiter.Reckons r.clock r.releasable

instance (r : Relay) : Decidable r.Reckons :=
  inferInstanceAs (Decidable (∀ limiter ∈ r.limiter, limiter.Reckons r.clock r.releasable))

/-- How releasing what may be released goes. There is nothing; or the limiter cannot reckon, the
    release fails, or its bytes cannot be counted by the limiter; or it succeeds. -/
inductive Serving (r : Relay) : Except Halt Relay → Prop where
  | idle (hnone : r.releasable = 0) : Serving r (.ok r)
  | unreckoned (e : Overflow) (hlimiter : ¬ r.Reckons) : Serving r (.error ⟨.overflow e, r⟩)
  | failed {journal : Journal} {halt : Halt} (hreckons : r.Reckons)
      (hsome : 0 < r.granted.permit) (hjournal : r.journal.Extends journal [])
      (hrelease : Releasing { r with clock := r.clock + r.granted.pause, journal }
        r.granted.permit (.error halt)) :
      Serving r (.error halt)
  | uncounted {journal : Journal} {r' : Relay} {n : Nat} (e : Overflow) (hreckons : r.Reckons)
      (hsome : 0 < r.granted.permit) (hjournal : r.journal.Extends journal [])
      (hrelease : Releasing { r with clock := r.clock + r.granted.pause, journal }
        r.granted.permit (.ok (r', n)))
      (hlarge : ∃ limiter, r.limiter = some limiter ∧ countLimit ≤ limiter.released + n) :
      Serving r (.error ⟨.overflow e, r'⟩)
  | served {journal journal' : Journal} {r' : Relay} {n : Nat} (hsome : 0 < r.granted.permit)
      (hpermit : r.granted.permit ≤ r.releasable) (hreckons : r.Reckons)
      (hjournal : r.journal.Extends journal [])
      (hrelease : Releasing { r with clock := r.clock + r.granted.pause, journal }
        r.granted.permit (.ok (r', n)))
      (hjournal' : r'.journal.Extends journal' []) :
      Serving r (.ok { r' with
        clock := r'.clock + r.stall n, limiter := r.paced n, journal := journal' })

theorem Releasing.limiter_eq {permit n : Nat} (h : r.Releasing permit (.ok (r', n))) :
    r'.limiter = r.limiter := by
  cases h
  rfl

theorem granted_permit_le (r : Relay) : r.granted.permit ≤ r.releasable := by
  unfold granted
  split
  · exact Nat.le_refl _
  · exact Limiter.permit_grant_le _ _ _

theorem granted_permit_pos (h : 0 < r.releasable) : 0 < r.granted.permit := by
  unfold granted
  split
  · exact h
  · exact Limiter.permit_grant_pos _ _ h

/-- Without a limiter all that may be released is offered at once. -/
theorem serving_unpaced (hlimiter : r.limiter = none) : r.Serving r.releaseReady := by
  have hgranted : r.granted = ⟨0, r.releasable⟩ := by rw [granted, hlimiter]
  have hpaced (n : Nat) : r.paced n = none := by rw [paced, hlimiter]; rfl
  have hstall (n : Nat) : r.stall n = 0 := by
    rw [stall, hlimiter]
    exact if_neg fun h => Bool.noConfusion h.1
  have hreckons : r.Reckons := fun limiter h => by
    rw [hlimiter] at h
    cases h
  have hreleasing := r.releasing r.releasable
  unfold releaseReady
  rw [hlimiter]
  by_cases hnone : r.releasable = 0
  · simp only [if_pos hnone]
    exact .idle hnone
  · have hsome : 0 < r.granted.permit := by
      rw [hgranted]
      exact Nat.pos_of_ne_zero hnone
    simp only [if_neg hnone]
    rcases hrelease : r.release r.releasable with halt | ⟨r', n⟩ <;> rw [hrelease] at hreleasing
    · refine .failed hreckons hsome (.refl r.journal) ?_
      rw [hgranted]
      exact hreleasing
    · have hsame : r' = { r' with clock := r'.clock + r.stall n, limiter := r.paced n } := by
        rw [hstall, hpaced, ← hlimiter, ← hreleasing.limiter_eq]
        rfl
      rw [Except.map, hsame]
      refine .served hsome r.granted_permit_le hreckons (.refl r.journal) ?_ (.refl r'.journal)
      rw [hgranted]
      exact hreleasing

/-- A limiter is told of a release after it, and waits if that took nothing. -/
theorem serving_recorded {limiter : Limiter} {journal : Journal} {n : Nat}
    (hlimiter : r.limiter = some limiter) (hreckons : r.Reckons) (hsome : 0 < r.granted.permit)
    (hjournal : r.journal.Extends journal [])
    (hrelease : Releasing { r with clock := r.clock + r.granted.pause, journal }
      r.granted.permit (.ok (r', n))) :
    r.Serving
      (match limiter.record? n with
      | .error e => .error ⟨.overflow e, r'⟩
      | .ok limiter =>
        let r := { r' with limiter := some limiter }
        .ok (if n = 0 then (r.log [.stalled limiter.released]).pause quantum else r)) := by
  have hpaced : r.paced n = some { limiter with released := limiter.released + n } := by
    rw [paced, hlimiter]
    rfl
  rcases hrecord : limiter.record? n with e | limiter'
  · exact .uncounted e hreckons hsome hjournal hrelease
      ⟨limiter, hlimiter, Limiter.record?_error hrecord⟩
  · obtain ⟨rfl, -⟩ := Limiter.record?_ok hrecord
    dsimp only
    by_cases hstalled : n = 0
    · have hstall : quantum = r.stall n := by rw [stall, hlimiter, if_pos ⟨rfl, hstalled⟩]
      have hlogged :=
        (Journal.Extends.log r'.journal [.stalled (limiter.released + n)]).quiet
          (.log_quiet _ (passedBy_pausing quantum))
      have hserved :=
        Serving.served hsome r.granted_permit_le hreckons hjournal hrelease hlogged
      rw [hpaced, ← hstall] at hserved
      rw [if_pos hstalled, pause_eq]
      exact hserved
    · have hstall : 0 = r.stall n := by rw [stall, if_neg fun h => hstalled h.2]
      have hserved :=
        Serving.served hsome r.granted_permit_le hreckons hjournal hrelease (.refl r'.journal)
      rw [hpaced, ← hstall] at hserved
      rw [if_neg hstalled]
      exact hserved

/-- A limiter is asked before a release. -/
theorem serving_paced {limiter : Limiter} (hlimiter : r.limiter = some limiter) :
    r.Serving r.releaseReady := by
  have hgranted : r.granted = limiter.grant r.clock r.releasable := by rw [granted, hlimiter]
  unfold releaseReady
  rw [hlimiter]
  dsimp only
  rcases limiter.ask?_cases r.clock r.releasable with ⟨hask, hreckons⟩ | ⟨e, hask, hnot⟩
  · have hreckons' : r.Reckons := fun l h => by
      rw [hlimiter] at h
      cases h
      exact hreckons
    rw [hask, ← hgranted]
    dsimp only
    by_cases hnone : r.granted.permit = 0
    · -- nothing is granted only if there is nothing, and then there is no pause either
      have hreleasable : r.releasable = 0 := by
        rcases Nat.eq_zero_or_pos r.releasable with hzero | hpos
        · exact hzero
        · exact absurd hnone (Nat.ne_of_gt (granted_permit_pos hpos))
      have hpause : r.granted.pause = 0 := by
        rw [hgranted, Limiter.grant, if_pos (Or.inr hreleasable)]
      rw [if_pos hnone, hpause]
      exact .idle hreleasable
    · have hsome := Nat.pos_of_ne_zero hnone
      have hjournal :=
        (Journal.Extends.log_quiet r.journal (passedBy_pausing r.granted.pause)).quiet
          (.log _ [.granted r.granted.permit r.releasable limiter.released])
      have hreleasing := releasing { r with
        clock := r.clock + r.granted.pause
        journal := r.journal ++ pausing r.granted.pause ++
          [Event.granted r.granted.permit r.releasable limiter.released] } r.granted.permit
      rw [if_neg hnone, pause_eq]
      split
      · next halt hrelease =>
        refine .failed hreckons' hsome hjournal ?_
        rw [← hrelease]
        exact hreleasing
      · next r' n hrelease =>
        -- the rewriting is folded into the relay that the release starts from
        unfold log at hrelease
        rw [hrelease] at hreleasing
        exact serving_recorded hlimiter hreckons' hsome hjournal hreleasing
  · rw [hask]
    exact .unreckoned e fun h => hnot (h limiter hlimiter)

/-- **What can come of releasing what may be released.** -/
theorem serving (r : Relay) : r.Serving r.releaseReady := by
  rcases hlimiter : r.limiter with _ | limiter
  · exact serving_unpaced hlimiter
  · exact serving_paced hlimiter

/-! ### Whole turns -/

inductive Ticking (r : Relay) : Except Halt Relay → Prop where
  | off (hnone : r.instants = []) : Ticking r (.ok r)
  | overflowed {now : Duration} {instants : List Duration} {text : String} {journal : Journal}
      (e : Overflow) (hinstants : r.instants = now :: instants)
      (htick : r.progress.tick? now = (text, .error e)) (hjournal : r.journal.Extends journal []) :
      Ticking r (.error ⟨.overflow e, { r with instants, journal }⟩)
  | looked {now : Duration} {instants : List Duration} {text : String} {progress : Progress}
      {journal : Journal} (hinstants : r.instants = now :: instants)
      (htick : r.progress.tick? now = (text, .ok progress))
      (hjournal : r.journal.Extends journal []) :
      Ticking r (.ok { r with instants, progress, journal })

theorem ticking (r : Relay) : r.Ticking r.tick := by
  unfold tick
  split
  · next hnone => exact .off hnone
  · next now instants hinstants =>
    rcases htick : r.progress.tick? now with ⟨text, outcome⟩
    have hjournal := Journal.Extends.log_quiet r.journal (passedBy_progressing text)
    dsimp only
    rw [logProgress_eq]
    cases outcome with
    | error e => exact .overflowed e hinstants htick hjournal
    | ok progress => exact .looked hinstants htick hjournal

/-- Looking for a rate line changes the moments to come, progress and the journal, and passes
    nothing on. -/
theorem tick_ok (h : r.tick = .ok r') :
    ∃ instants progress journal, r' = { r with instants, progress, journal } ∧
      r.journal.Extends journal [] := by
  have hticking := r.ticking
  rw [h] at hticking
  cases hticking with
  | off _ => exact ⟨r.instants, r.progress, r.journal, rfl, .refl r.journal⟩
  | looked _ _ hjournal => exact ⟨_, _, _, rfl, hjournal⟩

theorem tick_error (h : r.tick = .error halt) :
    ∃ e instants journal, halt = ⟨.overflow e, { r with instants, journal }⟩ ∧
      r.journal.Extends journal [] := by
  have hticking := r.ticking
  rw [h] at hticking
  cases hticking with
  | overflowed e _ _ hjournal => exact ⟨e, _, _, rfl, hjournal⟩

theorem turn_eq (r : Relay) :
    r.turn = r.filled.bind fun r => r.validate.bind fun r => r.releaseReady.bind tick := by
  unfold turn filled
  split <;> rfl

/-- A relay that could not fill its buffer has passed nothing on in trying to. -/
theorem filled_error (h : r.filled = .error halt) : r.journal.Extends halt.relay.journal [] := by
  have hfilling := r.filling
  rw [h] at hfilling
  cases hfilling with
  | refused _ _ _ _ => exact .refl _
  | waitFailed _ _ hjournal => exact hjournal
  | overflowed _ _ _ _ hjournal => exact hjournal
  | failed _ _ _ hjournal => exact hjournal

/-- Nor has it touched a sink or the disk. -/
theorem filled_error_frame (h : r.filled = .error halt) :
    halt.relay.sinks = r.sinks ∧ halt.relay.disk = r.disk := by
  have hfilling := r.filling
  rw [h] at hfilling
  cases hfilling <;> exact ⟨rfl, rfl⟩

theorem turn_ok (h : r.turn = .ok r') :
    ∃ r₁ r₂ r₃, r.filled = .ok r₁ ∧ r₁.validate = .ok r₂ ∧ r₂.releaseReady = .ok r₃ ∧
      r₃.tick = .ok r' := by
  rw [turn_eq] at h
  rcases hfilled : r.filled with halt | r₁
  · rw [hfilled] at h
    cases h
  · rw [hfilled, Except.bind] at h
    rcases hvalidate : r₁.validate with halt | r₂
    · rw [hvalidate] at h
      cases h
    · rw [hvalidate, Except.bind] at h
      rcases hrelease : r₂.releaseReady with halt | r₃
      · rw [hrelease] at h
        cases h
      · rw [hrelease] at h
        exact ⟨r₁, r₂, r₃, rfl, hvalidate, hrelease, h⟩

theorem turn_error (h : r.turn = .error halt) :
    r.filled = .error halt ∨ ∃ r₁, r.filled = .ok r₁ ∧ (r₁.validate = .error halt ∨
      ∃ r₂, r₁.validate = .ok r₂ ∧ (r₂.releaseReady = .error halt ∨
        ∃ r₃, r₂.releaseReady = .ok r₃ ∧ r₃.tick = .error halt)) := by
  rw [turn_eq] at h
  rcases hfilled : r.filled with halt | r₁
  · rw [hfilled] at h
    exact Or.inl h
  · rw [hfilled, Except.bind] at h
    refine Or.inr ⟨r₁, rfl, ?_⟩
    rcases hvalidate : r₁.validate with halt | r₂
    · rw [hvalidate] at h
      exact Or.inl h
    · rw [hvalidate, Except.bind] at h
      refine Or.inr ⟨r₂, rfl, ?_⟩
      rcases hrelease : r₂.releaseReady with halt | r₃
      · rw [hrelease] at h
        exact Or.inl h
      · rw [hrelease] at h
        exact Or.inr ⟨r₃, rfl, h⟩

/-! ### What a turn leaves alone -/

/-- Vouching changes nothing but the decoder and the buffer, which keeps its capacity. -/
theorem validate_frame (h : r.validate = .ok r') :
    ∃ buffer decoder validated, r' = { r with buffer, decoder, validated } ∧
      buffer.capacity = r.buffer.capacity := by
  unfold validate at h
  split at h
  · cases h
    exact ⟨r.buffer, r.decoder, r.validated, rfl, rfl⟩
  · dsimp only at h
    split at h
    · cases h
    · cases h
      exact ⟨_, _, _, rfl, rfl⟩

/-- After its read a turn neither reads nor ends the input, and its buffer keeps its size. -/
theorem turn_frame (h : r.turn = .ok r') :
    ∃ r₁, r.filled = .ok r₁ ∧ r'.source = r₁.source ∧ r'.ended = r₁.ended ∧
      r'.bytesRead = r₁.bytesRead ∧ r'.buffer.capacity = r₁.buffer.capacity := by
  obtain ⟨r₁, r₂, r₃, hfilled, hvalidate, hserve, htick⟩ := turn_ok h
  obtain ⟨buffer, decoder, validated, rfl, hcapacity⟩ := validate_frame hvalidate
  obtain ⟨_, _, _, rfl, _⟩ := tick_ok htick
  refine ⟨r₁, hfilled, ?_⟩
  have hserving := serving { r₁ with buffer, decoder, validated }
  rw [hserve] at hserving
  cases hserving with
  | idle _ => exact ⟨rfl, rfl, rfl, hcapacity⟩
  | served _ _ _ _ hrelease _ =>
    cases hrelease with
    | released _ _ _ _ _ _ =>
      exact ⟨rfl, rfl, rfl, (ReadBuffer.capacity_consume _ _).trans hcapacity⟩

end Relay

end StreamRelay
