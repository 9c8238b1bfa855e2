/-
  StreamRelay/Proofs/Relay/AllOrNothing.lean
  ==========================================
  **A relay that reads everything first delivers all or nothing.**

  Such a relay has two phases (`Stage`). While it reads, nothing may be released, however often the
  buffer grows or a read brings nothing, so no sink is written to and the limiter has nothing to
  pause for. The turn that comes to the end of the input has the decoder vouch for all of it, or
  else the relay fails; only then does it deliver, and from there on it neither reads nor finds
  fault with the framing.

  The journal tells the phases apart. Opening leaves warnings and writes to the pass-through output
  (`Event.isOpening`), reading leaves events of taking input in (`Event.isIntake`), and whatever a
  grant, a file or a pause leaves delivers (`Event.delivers`).

  Main statement: `run_all_or_nothing`.
-/
import Mathlib.Algebra.Ring.Nat
import StreamRelay.Proofs.Relay.Containment

namespace StreamRelay

open Framing

/-! ### Events -/

/-- An event of taking input in, or a line of progress. -/
def Event.isIntake : Event → Bool
  | .waited _ | .waitFailed | .grew _ | .read _ _ | .progressed _ => true
  | _ => false

/-- An event of delivering payload: it is granted, paused for or released, or a file is opened for
    it. -/
def Event.delivers : Event → Bool
  | .granted _ _ _ | .stalled _ | .paused _ | .opened _ | .emitted _ _ | .released _ => true
  | _ => false

theorem Event.of_isOpening {event : Event} (h : event.isOpening) :
    event.delivers = false ∧ event.bytesRead = 0 := by
  cases event <;> simp [isOpening] at h <;> exact ⟨rfl, rfl⟩

theorem Event.delivers_of_isIntake {event : Event} (h : event.isIntake) :
    event.delivers = false := by
  cases event <;> simp [isIntake] at h <;> rfl

theorem passedBy_of_isIntake {events : List Event} (h : ∀ event ∈ events, event.isIntake) :
    passedBy events = [] := by
  unfold passedBy
  rw [List.flatMap_eq_nil_iff]
  intro event hmem
  have hintake := h event hmem
  cases event <;> simp [Event.isIntake] at hintake <;> rfl

def Journal.bytesRead (j : Journal) : Nat := (j.toList.map Event.bytesRead).sum

theorem Journal.bytesRead_append (j : Journal) (events : List Event) :
    Journal.bytesRead (j ++ events) = j.bytesRead + (events.map Event.bytesRead).sum := by
  simp [Journal.bytesRead]

theorem Options.isOpening_warnings {o options : Options} {warnings : List Event}
    (h : options.validate = .ok (o, warnings)) : ∀ event ∈ warnings, event.isOpening := by
  unfold validate at h
  split at h
  · cases h
  · split at h
    · cases h
    · split at h
      · cases h
        simp [Event.isOpening]
      · cases h
        simp

/-! ### What was delivered -/

/-- **Nothing was delivered**: the pass-through output has accepted part of the start escape at
    most, and none of that either unless it is framed; no file was opened; and the limiter has not
    paused. -/
structure Undelivered (o : Options) (start : Disk) (journal : Journal) (now : Disk) : Prop where
  passed : journal.passed <+: if o.passThrough && o.writeFraming then Tag.start.sequence else []
  quiet : ∀ event ∈ journal, event.delivers = false
  disk : now = start

/-- **All of the input was read and found whole before anything was delivered.** -/
structure Complete (o : Options) (start : Disk) (input : Bytes) (intake : Journal) : Prop where
  undelivered : Undelivered o start intake start
  bytesRead : intake.bytesRead = input.length
  atEnd : Relay.AtEnd o input intake
  payload : ∃ payload, o.payload input = .ok payload

/-- Either nothing was delivered, or the journal goes on from one that tells of all of the input and
    of no delivery. -/
inductive Staged (o : Options) (start : Disk) (input : Bytes) (journal : Journal) (now : Disk) :
    Prop where
  | undelivered (h : Undelivered o start journal now)
  | delivering {intake : Journal} {bytes : Bytes} (h : Complete o start input intake)
      (hjournal : intake.Extends journal bytes)

namespace Relay

variable {options : Options} {start : Disk} {r r' r₁ : Relay} {halt : Halt} {input released : Bytes}

/-! ### Taking input in -/

/-- The relay as it stands after an operation, whether that failed or not. -/
def standing : Except Halt Relay → Relay
  | .ok r => r
  | .error halt => halt.relay

structure TakesIn (r r' : Relay) : Prop where
  sinks : r'.sinks = r.sinks
  disk : r'.disk = r.disk
  journal : ∃ events : List Event,
    r'.journal = r.journal ++ events ∧ ∀ event ∈ events, event.isIntake

theorem TakesIn.refl (r : Relay) : TakesIn r r := ⟨rfl, rfl, [], by simp, by simp⟩

theorem TakesIn.trans (h : TakesIn r r₁) (h' : TakesIn r₁ r') : TakesIn r r' := by
  obtain ⟨events, hjournal, hintake⟩ := h.journal
  obtain ⟨more, hjournal', hintake'⟩ := h'.journal
  refine ⟨h'.sinks.trans h.sinks, h'.disk.trans h.disk, events ++ more, ?_, ?_⟩
  · rw [hjournal', hjournal]
    apply Array.ext'
    simp
  · rw [List.forall_mem_append]
    exact ⟨hintake, hintake'⟩

theorem takesIn_readInput (r : Relay) : TakesIn r (standing r.readInput) := by
  unfold readInput
  dsimp only
  split
  · exact ⟨rfl, rfl, [], by simp [standing], by simp⟩
  · split
    · unfold take
      dsimp only
      split <;> exact ⟨rfl, rfl, _, rfl, by simp [Event.isIntake]⟩
    all_goals exact ⟨rfl, rfl, _, rfl, by simp [Event.isIntake]⟩

theorem takesIn_awaitInput (r : Relay) : TakesIn r (standing r.awaitInput) := by
  have hlog (source : Source) (event : Event) (hintake : event.isIntake) :
      TakesIn r ({ r with source }.log [event]) :=
    ⟨rfl, rfl, [event], rfl, by simp [hintake]⟩
  unfold awaitInput
  split
  · split
    · exact hlog _ .waitFailed rfl
    · next isReady source _ =>
      cases isReady with
      | true => exact (hlog source (.waited true) rfl).trans (takesIn_readInput _)
      | false => exact hlog source (.waited false) rfl
  · exact takesIn_readInput r

/-- **Filling the buffer takes input in**, whatever comes of it. -/
theorem takesIn_filled (r : Relay) : TakesIn r (standing r.filled) := by
  unfold filled fill
  split
  · exact .refl r
  · split
    · split
      · split
        · exact .refl r
        · next buffer _ =>
          have hgrew : TakesIn r ({ r with buffer }.log [.grew buffer.capacity]) :=
            ⟨rfl, rfl, _, rfl, by simp [Event.isIntake]⟩
          exact hgrew.trans (takesIn_awaitInput _)
      · exact .refl r
    · exact takesIn_awaitInput r

theorem takesIn_validate (r : Relay) : TakesIn r (standing r.validate) := by
  unfold validate
  split
  · exact .refl r
  · dsimp only
    split <;> exact ⟨rfl, rfl, [], by simp [standing], by simp⟩

/-- So does vouching for what was read. -/
theorem takesIn_vouch (hfilled : r.filled = .ok r₁) : TakesIn r (standing r₁.validate) := by
  have hfill := takesIn_filled r
  rw [hfilled] at hfill
  exact hfill.trans (takesIn_validate r₁)

theorem takesIn_tick (r : Relay) : TakesIn r (standing r.tick) := by
  have hintake (text : String) : ∀ event ∈ progressing text, event.isIntake := by
    unfold progressing
    split <;> simp [Event.isIntake]
  unfold tick
  split
  · exact .refl r
  · dsimp only
    rw [logProgress_eq]
    split <;> exact ⟨rfl, rfl, _, rfl, hintake _⟩

/-! ### Counting what was read -/

/-- The bytes that a relay has counted are those that its journal tells of. -/
def Counted (r : Relay) : Prop := r.journal.bytesRead = r.bytesRead

theorem Counted.log_quiet (h : r.Counted) {event : Event} (hnone : event.bytesRead = 0) :
    (r.log [event]).Counted := by
  have hsum : ([event].map Event.bytesRead).sum = 0 := by simp [hnone]
  unfold Counted
  rw [log, Journal.bytesRead_append, hsum]
  exact h

theorem counted_take {want : Nat} {given : Bytes} (htake : r.take want given = .ok r')
    (h : r.Counted) : r'.Counted := by
  rcases r.take_cases want given with ⟨e, herror, _⟩ | hok
  · rw [herror] at htake
    cases htake
  · rw [hok] at htake
    cases htake
    unfold Counted
    rw [Journal.bytesRead_append, h]
    exact congrArg (r.bytesRead + ·) List.sum_singleton

theorem counted_readInput (h : r.Counted) (hread : r.readInput = .ok r') : r'.Counted := by
  unfold readInput at hread
  dsimp only at hread
  split at hread
  · cases hread
  · split at hread
    · exact counted_take hread h
    · cases hread
      exact Counted.log_quiet h rfl
    · cases hread
      exact Counted.log_quiet h rfl
    · cases hread

theorem counted_awaitInput (h : r.Counted) (hwait : r.awaitInput = .ok r') : r'.Counted := by
  unfold awaitInput at hwait
  split at hwait
  · split at hwait
    · cases hwait
    · next isReady source _ =>
      have hwaited : Counted ({ r with source }.log [.waited isReady]) := Counted.log_quiet h rfl
      cases isReady with
      | true => exact counted_readInput hwaited hwait
      | false =>
        cases hwait
        exact hwaited
  · exact counted_readInput h hwait

theorem counted_filled (h : r.Counted) (hfilled : r.filled = .ok r') : r'.Counted := by
  unfold filled fill at hfilled
  split at hfilled
  · cases hfilled
    exact h
  · split at hfilled
    · split at hfilled
      · split at hfilled
        · cases hfilled
        · next buffer _ =>
          have hgrew : Counted ({ r with buffer }.log [.grew buffer.capacity]) :=
            Counted.log_quiet h rfl
          exact counted_awaitInput hgrew hfilled
      · cases hfilled
        exact h
    · exact counted_awaitInput h hfilled

theorem counted_vouch (h : r.Counted) (hfilled : r.filled = .ok r₁)
    (hvalidate : r₁.validate = .ok r') : r'.Counted := by
  have hcounted := counted_filled h hfilled
  obtain ⟨_, _, _, rfl, _⟩ := validate_frame hvalidate
  exact hcounted

theorem counted_tick (h : r.Counted) (htick : r.tick = .ok r') : r'.Counted := by
  have hlogged (text : String) : (r.log (progressing text)).Counted := by
    unfold progressing
    split
    · rwa [log_nil]
    · exact h.log_quiet rfl
  unfold tick at htick
  split at htick
  · cases htick
    exact h
  · dsimp only at htick
    rw [logProgress_eq] at htick
    split at htick <;> cases htick
    exact hlogged _

/-! ### While a relay reads -/

structure Withheld (options : Options) (start : Disk) (r : Relay) : Prop where
  undelivered : Undelivered options start r.journal r.disk
  unopened : ∀ file ∈ r.sinks.files, file.state = .unopened

theorem Withheld.takesIn (h : Withheld options start r) (htakes : TakesIn r r') :
    Withheld options start r' := by
  obtain ⟨events, hjournal, hintake⟩ := htakes.journal
  refine ⟨⟨?_, ?_, ?_⟩, ?_⟩
  · rw [hjournal, Journal.passed_append, passedBy_of_isIntake hintake, List.append_nil]
    exact h.undelivered.passed
  · rw [hjournal]
    intro event hmem
    rw [Array.mem_def, Array.toList_appendList, List.mem_append] at hmem
    rcases hmem with hold | hnew
    · exact h.undelivered.quiet event (Array.mem_def.2 hold)
    · exact Event.delivers_of_isIntake (hintake event hnew)
  · exact htakes.disk.trans h.undelivered.disk
  · rw [htakes.sinks]
    exact h.unopened

/-- Giving up sinks that nothing was written to leaves no trace. -/
theorem Withheld.giveUp (h : Withheld options start r) (result : Except RelayError Report) :
    Undelivered options start (r.giveUp result).journal (r.giveUp result).disk := by
  have hrelease : r.sinks.release r.disk = (r.disk, []) := by
    exact Sinks.releaseFiles_eq
      (fun file hmem => FileSink.settled_of_unopened (h.unopened file hmem)) r.disk
  unfold Relay.giveUp
  rw [hrelease]
  dsimp only
  rw [log_nil]
  exact h.undelivered

theorem releaseReady_of_nothing (hnone : r.releasable = 0) : r.releaseReady = .ok r := by
  unfold releaseReady
  rw [hnone]
  split
  · rfl
  · next limiter _ =>
    have hask : limiter.ask? r.clock 0 = .ok ⟨0, 0⟩ := by
      simp [Limiter.ask?]
    simp only [hask]
    rfl

theorem Ledger.releasable_eq_zero (h : Ledger options.settled input released r)
    (hall : options.readAll) (hended : r.ended = false) : r.releasable = 0 := by
  have hall' : r.options.readAll := by
    rw [h.options]
    exact hall
  simp [releasable, hall', hended]

/-! ### While a relay delivers -/

structure Proceeds (r r' : Relay) : Prop where
  ended : r'.ended = r.ended
  journal : ∃ bytes, r.journal.Extends r'.journal bytes

theorem proceeds_validate (r : Relay) : Proceeds r (standing r.validate) := by
  unfold validate
  split
  · exact ⟨rfl, _, .refl r.journal⟩
  · dsimp only
    split <;> exact ⟨rfl, _, .refl r.journal⟩

theorem Releasing.proceeds {permit : Nat} {result : Except Halt (Relay × Nat)}
    (h : r.Releasing permit result) :
    Proceeds r (standing (result.map Prod.fst)) := by
  cases h with
  | notPassed _ _ _ hjournal => exact ⟨rfl, _, hjournal⟩
  | notStored _ _ _ hjournal => exact ⟨rfl, _, hjournal⟩
  | overflowed _ _ _ _ _ hjournal => exact ⟨rfl, _, hjournal⟩
  | released _ _ _ _ _ hjournal => exact ⟨rfl, _, hjournal⟩

theorem proceeds_releaseReady (r : Relay) : Proceeds r (standing r.releaseReady) := by
  have hserving := r.serving
  generalize r.releaseReady = result at hserving ⊢
  cases hserving with
  | idle _ => exact ⟨rfl, _, .refl r.journal⟩
  | unreckoned _ _ => exact ⟨rfl, _, .refl r.journal⟩
  | failed _ _ hjournal hrelease =>
    obtain ⟨hended, bytes, hextends⟩ := hrelease.proceeds
    exact ⟨hended, _, hjournal.trans hextends⟩
  | uncounted _ _ _ hjournal hrelease _ =>
    obtain ⟨hended, bytes, hextends⟩ := hrelease.proceeds
    exact ⟨hended, _, hjournal.trans hextends⟩
  | served _ _ _ hjournal hrelease hjournal' =>
    obtain ⟨hended, bytes, hextends⟩ := hrelease.proceeds
    exact ⟨hended, _, (hjournal.trans hextends).trans hjournal'⟩

theorem proceeds_tick (r : Relay) : Proceeds r (standing r.tick) := by
  have hticking := r.ticking
  generalize r.tick = result at hticking ⊢
  cases hticking with
  | off _ => exact ⟨rfl, _, .refl r.journal⟩
  | overflowed _ _ _ hjournal => exact ⟨rfl, _, hjournal⟩
  | looked _ _ hjournal => exact ⟨rfl, _, hjournal⟩

theorem proceeds_finish (r : Relay) : Proceeds r (standing r.finish) := by
  have hclosing := r.closing
  generalize r.finish = result at hclosing ⊢
  cases hclosing with
  | refused _ _ _ hjournal => exact ⟨rfl, _, hjournal⟩
  | notClosed _ _ _ hjournal => exact ⟨rfl, _, hjournal⟩
  | closed _ _ _ hjournal => exact ⟨rfl, _, hjournal⟩

/-- A relay that has read all of its input, and found it whole before it delivered any of it. -/
structure Delivering (options : Options) (start : Disk) (input : Bytes) (r : Relay) : Prop where
  ended : r.ended
  complete : ∃ intake bytes, Complete options start input intake ∧ intake.Extends r.journal bytes

theorem Delivering.proceeds (h : Delivering options start input r) (hproceeds : Proceeds r r') :
    Delivering options start input r' := by
  obtain ⟨intake, bytes, hcomplete, hjournal⟩ := h.complete
  obtain ⟨more, hmore⟩ := hproceeds.journal
  exact ⟨hproceeds.ended ▸ h.ended, intake, bytes ++ more, hcomplete, hjournal.trans hmore⟩

theorem Delivering.staged (h : Delivering options start input r) (now : Disk) :
    Staged options start input r.journal now := by
  obtain ⟨intake, bytes, hcomplete, hjournal⟩ := h.complete
  exact .delivering hcomplete hjournal

theorem Delivering.giveUp (h : Delivering options start input r)
    (result : Except RelayError Report) :
    Staged options start input (r.giveUp result).journal (r.giveUp result).disk := by
  obtain ⟨intake, bytes, hcomplete, hjournal⟩ := h.complete
  exact .delivering hcomplete (hjournal.quiet (r.giveUp_journal result))

/-! ### The two phases -/

/-- **Where a relay that reads everything first stands**: it has delivered nothing, or it has read
    all and found it whole. -/
inductive Stage (options : Options) (start : Disk) (input : Bytes) (r : Relay) : Prop where
  | reading (hended : r.ended = false) (hwithheld : Withheld options start r)
      (hcounted : r.Counted) : Stage options start input r
  | delivering (h : Delivering options start input r) : Stage options start input r

theorem Stage.staged (h : Stage options start input r) :
    Staged options start input r.journal r.disk := by
  cases h with
  | reading _ hwithheld _ => exact .undelivered hwithheld.undelivered
  | delivering hdelivering => exact hdelivering.staged r.disk

/-- With the end of its input a relay passes from the one phase to the other. -/
theorem stage_of_withheld (hledger : Ledger options.settled input released r)
    (hwithheld : Withheld options start r) (hcounted : r.Counted) :
    Stage options start input r := by
  cases hended : r.ended with
  | false => exact .reading hended hwithheld hcounted
  | true =>
    have hundelivered := hwithheld.undelivered
    rw [hundelivered.disk] at hundelivered
    have hcomplete : Complete options start input r.journal :=
      ⟨hundelivered, hcounted.trans hledger.bytesRead, hledger.atEnd hended, _,
        (hledger.complete hended).1⟩
    exact .delivering ⟨hended, r.journal, [], hcomplete, .refl r.journal⟩

theorem filled_of_ended (hended : r.ended) : r.filled = .ok r := if_pos hended

/-- Reading and vouching end the first phase if the input is at its end. In the second there is
    nothing to read. -/
theorem Stage.vouch (h : Stage options start input r)
    (hledger : Ledger options.settled input released r)
    (hbusy : r.isDone = false) (hfilled : r.filled = .ok r₁) (hvalidate : r₁.validate = .ok r') :
    Stage options start (input ++ r.arrival) r' := by
  cases h with
  | reading _ hwithheld hcounted =>
    have htakes := takesIn_vouch hfilled
    rw [hvalidate] at htakes
    exact stage_of_withheld ((hledger.arrive hbusy hfilled).vouch hvalidate)
      (hwithheld.takesIn htakes) (counted_vouch hcounted hfilled hvalidate)
  | delivering hdelivering =>
    have hnone : r.arrival = [] :=
      arrival_eq (filled_of_ended hdelivering.ended) (List.append_nil _).symm
    rw [filled_of_ended hdelivering.ended] at hfilled
    cases hfilled
    have hcheck := proceeds_validate r
    rw [hvalidate] at hcheck
    rw [hnone, List.append_nil]
    exact .delivering (hdelivering.proceeds hcheck)

/-- **Nothing is released in the first phase.** -/
theorem Stage.serve (h : Stage options start input r)
    (hledger : Ledger options.settled input released r)
    (hall : options.readAll) (hserve : r.releaseReady = .ok r') : Stage options start input r' := by
  cases h with
  | reading hended hwithheld hcounted =>
    rw [releaseReady_of_nothing (hledger.releasable_eq_zero hall hended)] at hserve
    cases hserve
    exact .reading hended hwithheld hcounted
  | delivering hdelivering =>
    have hproceeds := proceeds_releaseReady r
    rw [hserve] at hproceeds
    exact .delivering (hdelivering.proceeds hproceeds)

theorem Stage.tick (h : Stage options start input r) (htick : r.tick = .ok r') :
    Stage options start input r' := by
  have hproceeds := proceeds_tick r
  rw [htick] at hproceeds
  cases h with
  | reading hended hwithheld hcounted =>
    have htakes := takesIn_tick r
    rw [htick] at htakes
    exact .reading (hproceeds.ended.trans hended) (hwithheld.takesIn htakes)
      (counted_tick hcounted htick)
  | delivering hdelivering => exact .delivering (hdelivering.proceeds hproceeds)

/-- **A turn keeps a relay in its phase, or takes it from the first to the second.** -/
theorem Stage.turn (h : Stage options start input r)
    (hledger : Ledger options.settled input released r)
    (hall : options.readAll) (hbusy : r.isDone = false) (hturn : r.turn = .ok r') :
    Stage options start (input ++ r.arrival) r' := by
  obtain ⟨r₁, r₂, r₃, hfilled, hvalidate, hserve, htick⟩ := turn_ok hturn
  have hvouched := (hledger.arrive hbusy hfilled).vouch hvalidate
  exact ((h.vouch hledger hbusy hfilled hvalidate).serve hvouched hall hserve).tick htick

/-! ### Turns that fail -/

/-- How a turn can fail: before anything is delivered, or else for a sink or an overflow. -/
inductive Failing (options : Options) (start : Disk) (input : Bytes) (halt : Halt) : Prop where
  | withheld (h : Withheld options start halt.relay) : Failing options start input halt
  | delivering (h : Delivering options start input halt.relay)
      (hcause : (∃ s, halt.error = .sink s) ∨ ∃ o, halt.error = .overflow o) :
      Failing options start input halt

theorem releaseReady_error (hserve : r.releaseReady = .error halt) :
    (∃ s, halt.error = .sink s) ∨ ∃ o, halt.error = .overflow o := by
  have hserving := r.serving
  rw [hserve] at hserving
  cases hserving with
  | unreckoned e _ => exact Or.inr ⟨e, rfl⟩
  | failed _ _ _ hrelease =>
    cases hrelease with
    | notPassed _ _ _ _ => exact Or.inl ⟨_, rfl⟩
    | notStored _ _ _ _ => exact Or.inl ⟨_, rfl⟩
    | overflowed e _ _ _ _ _ => exact Or.inr ⟨e, rfl⟩
  | uncounted e _ _ _ _ _ => exact Or.inr ⟨e, rfl⟩

/-- An input that was found whole is not refused later. -/
theorem Delivering.validate_ne_error (h : Delivering options start input r)
    (hledger : Ledger options.settled input released r) (hbusy : r.isDone = false) :
    r.validate ≠ .error halt := by
  intro hvalidate
  have hunseen := (hledger.arrived_nil hbusy).unseen
  obtain ⟨e, decoder, _, hsome, hrefused⟩ := validate_error hunseen hvalidate
  obtain ⟨intake, bytes, hcomplete, _⟩ := h.complete
  obtain ⟨payload, hpayload⟩ := hcomplete.payload
  have hframing : options.readFraming := hledger.decoder.symm.trans hsome
  have herror := hrefused [] fun _ => rfl
  rw [List.append_nil, List.append_nil] at herror
  rw [Options.payload, if_pos hframing, herror] at hpayload
  cases hpayload

/-- **A turn that fails has delivered nothing**, unless the input had been read and found whole. -/
theorem Stage.turn_error (h : Stage options start input r)
    (hledger : Ledger options.settled input released r)
    (hall : options.readAll) (hbusy : r.isDone = false) (hturn : r.turn = .error halt) :
    Failing options start (input ++ r.arrival) halt := by
  -- a relay that delivers has nothing left to read or to vouch for, and one that reads has nothing
  -- to release
  rcases Relay.turn_error hturn with hfilled | ⟨r₁, hfilled, hvalidate | ⟨r₂, hvalidate, hlater⟩⟩
  · cases h with
    | reading _ hwithheld _ =>
      have htakes := takesIn_filled r
      rw [hfilled] at htakes
      exact .withheld (hwithheld.takesIn htakes)
    | delivering hdelivering =>
      rw [filled_of_ended hdelivering.ended] at hfilled
      cases hfilled
  · cases h with
    | reading _ hwithheld _ =>
      have htakes := takesIn_vouch hfilled
      rw [hvalidate] at htakes
      exact .withheld (hwithheld.takesIn htakes)
    | delivering hdelivering =>
      rw [filled_of_ended hdelivering.ended] at hfilled
      cases hfilled
      exact absurd hvalidate (hdelivering.validate_ne_error hledger hbusy)
  · have hvouched := (hledger.arrive hbusy hfilled).vouch hvalidate
    have hstage := h.vouch hledger hbusy hfilled hvalidate
    rcases hlater with hserve | ⟨r₃, hserve, htick⟩
    · cases hstage with
      | reading hended _ _ =>
        rw [releaseReady_of_nothing (hvouched.releasable_eq_zero hall hended)] at hserve
        cases hserve
      | delivering hdelivering =>
        have hproceeds := proceeds_releaseReady r₂
        rw [hserve] at hproceeds
        exact .delivering (hdelivering.proceeds hproceeds) (releaseReady_error hserve)
    · cases hstage.serve hvouched hall hserve with
      | reading _ hwithheld _ =>
        have htakes := takesIn_tick r₃
        rw [htick] at htakes
        exact .withheld (hwithheld.takesIn htakes)
      | delivering hdelivering =>
        have hproceeds := proceeds_tick r₃
        rw [htick] at hproceeds
        obtain ⟨e, _, _, rfl, _⟩ := tick_error htick
        exact .delivering (hdelivering.proceeds hproceeds) (Or.inr ⟨e, rfl⟩)

/-! ### Before the first turn -/

variable {source : Source} {sinks : Sinks} {disk now : Disk} {machine : Machine} {first : Relay}

theorem wire_settled_nil (options : Options) :
    options.settled.wire [] =
      if options.passThrough && options.writeFraming then Tag.start.sequence else [] := by
  unfold Options.wire Options.settled
  cases options.passThrough <;> cases options.writeFraming <;> rfl

theorem undelivered_of_isOpening {journal : Journal}
    (hpassed : journal.passed <+: options.settled.wire [])
    (hopening : ∀ event ∈ journal, event.isOpening) : Undelivered options disk journal disk where
  passed := wire_settled_nil options ▸ hpassed
  quiet event hmem := (Event.of_isOpening (hopening event hmem)).1
  disk := rfl

theorem bytesRead_of_isOpening {journal : Journal} (hopening : ∀ event ∈ journal, event.isOpening) :
    journal.bytesRead = 0 := by
  apply List.sum_eq_zero_iff_forall_eq_nat.2
  intro count hmem
  obtain ⟨event, hevent, rfl⟩ := List.mem_map.1 hmem
  exact (Event.of_isOpening (hopening event (Array.mem_def.2 hevent))).2

/-- A relay that cannot be made leaves nothing but warnings. -/
theorem undelivered_of_prepare_error {e : RelayError} {warnings : List Event}
    (h : prepare options source sinks disk machine = .error (e, warnings)) :
    Undelivered options disk warnings.toArray disk := by
  have hquiet : Journal.passed warnings.toArray = [] := (prepare_error h).1
  have hopening : ∀ event ∈ warnings, event.isOpening := by
    unfold prepare at h
    split at h
    · cases h
      simp
    · next hvalidate =>
      have hwarnings := Options.isOpening_warnings hvalidate
      split at h
      · cases h
        exact hwarnings
      · split at h
        · cases h
          exact hwarnings
        · cases h
  apply undelivered_of_isOpening
  · rw [hquiet]
    exact List.nil_prefix
  · simpa using hopening

theorem standing_passOnly (r : Relay) (bytes : Bytes) :
    standing (r.passOnly bytes) =
      { r with sinks := (r.sinks.writePass bytes).state }.log (r.sinks.writePass bytes).events := by
  unfold passOnly
  dsimp only
  split <;> rfl

theorem passed_begin (hprepare : prepare options source sinks disk machine = .ok r) :
    (standing r.begin).journal.passed <+: options.settled.wire [] := by
  rcases hbegin : r.begin with halt | first
  · exact (begin_error hprepare hbegin).2
  · rw [← (ledger_begin hprepare hbegin).1.passed]
    exact List.prefix_rfl

/-- **The start escape is all that is written before the first turn.** -/
theorem withheld_begin (hfiles : ∀ file ∈ sinks.files, file.state = .unopened)
    (hprepare : prepare options source sinks disk machine = .ok r) :
    Withheld options disk (standing r.begin) ∧ (standing r.begin).Counted := by
  have hpassed := passed_begin hprepare
  obtain ⟨o, warnings, buffer, progress, hvalidate, _, _, rfl⟩ := prepare_ok hprepare
  rw [begin_eq, standing_passOnly] at hpassed ⊢
  have hopening : ∀ event ∈ warnings.toArray ++ ((sinks.enablePass o.passThrough).writePass
      (ofOptions o source sinks disk machine buffer progress warnings).prelude).events,
      event.isOpening := by
    intro event hmem
    rw [Array.mem_def, Array.toList_appendList, List.mem_append] at hmem
    rcases hmem with hwarning | hwrite
    · exact Options.isOpening_warnings hvalidate event hwarning
    · exact isOpening_writePass _ _ event hwrite
  refine ⟨⟨undelivered_of_isOpening hpassed hopening, ?_⟩, bytesRead_of_isOpening hopening⟩
  change ∀ file ∈ ((sinks.enablePass o.passThrough).writePass _).state.files,
    file.state = .unopened
  rw [Sinks.files_writePass, files_enablePass]
  exact hfiles

/-! ### Whole runs -/

/-- **The phase of every relay that is reached.** -/
theorem Reaches.stage (hreaches : Reaches first input r)
    (hstarts : Starts options source sinks disk machine first)
    (hall : options.readAll) (hfiles : ∀ file ∈ sinks.files, file.state = .unopened) :
    ∃ released, Ledger options.settled input released r ∧ Stage options disk input r := by
  obtain ⟨_, hprepare, hbegin⟩ := hstarts
  have hledger := (ledger_begin hprepare hbegin).1
  obtain ⟨hwithheld, hcounted⟩ := withheld_begin hfiles hprepare
  rw [hbegin] at hwithheld hcounted
  refine hreaches.preserves
    (P := fun input r =>
      ∃ released, Ledger options.settled input released r ∧ Stage options disk input r) ?_
    ⟨[], hledger, stage_of_withheld hledger hwithheld hcounted⟩
  rintro input r r' ⟨released, hledger, hstage⟩ hbusy hturn
  obtain ⟨block, hledger'⟩ := hledger.turn hbusy hturn
  exact ⟨released ++ block, hledger', hstage.turn hledger hall hbusy hturn⟩

theorem run_staged (hall : options.readAll) (hfiles : ∀ file ∈ sinks.files, file.state = .unopened)
    {result : Outcome} (hrun : run options source sinks disk machine = some result) :
    Staged options disk (runInput options source sinks disk machine) result.journal result.disk ∧
      ∀ e, result.result = .error e → (∀ s, e ≠ .sink s) → (∀ o, e ≠ .overflow o) →
        Undelivered options disk result.journal result.disk := by
  cases course hrun with
  | unprepared hprepare hresult =>
    subst hresult
    have hundelivered := undelivered_of_prepare_error hprepare
    exact ⟨.undelivered hundelivered, fun _ _ _ _ => hundelivered⟩
  | @unopened r halt hprepare hbegin hresult =>
    subst hresult
    have hwithheld := (withheld_begin hfiles hprepare).1
    rw [hbegin] at hwithheld
    have hundelivered := hwithheld.giveUp (.error halt.error)
    exact ⟨.undelivered hundelivered, fun _ _ _ _ => hundelivered⟩
  | @halted first mid before halt hstarts hreaches hbusy hturn hinput hresult =>
    subst hresult
    obtain ⟨released, hledger, hstage⟩ := hreaches.stage hstarts hall hfiles
    rw [hinput]
    cases hstage.turn_error hledger hall hbusy hturn with
    | withheld hwithheld =>
      have hundelivered := hwithheld.giveUp (.error halt.error)
      exact ⟨.undelivered hundelivered, fun _ _ _ _ => hundelivered⟩
    | delivering hdelivering hcause =>
      refine ⟨hdelivering.giveUp (.error halt.error), ?_⟩
      intro e herror hsink hoverflow
      cases herror
      rcases hcause with ⟨s, hs⟩ | ⟨o, ho⟩
      · exact absurd hs (hsink s)
      · exact absurd ho (hoverflow o)
  | @closed first last hstarts hreaches hdone hresult =>
    subst hresult
    obtain ⟨released, hledger, hstage⟩ := hreaches.stage hstarts hall hfiles
    have hproceeds := proceeds_finish last
    constructor
    · -- whatever becomes of closing, the relay was done and so had come to deliver
      cases hstage with
      | reading hended _ _ =>
        rw [(Bool.and_eq_true_iff.1 hdone).1] at hended
        cases hended
      | delivering hdelivering =>
        rcases hfinish : last.finish with halt | r
        · rw [hfinish] at hproceeds
          exact (hdelivering.proceeds hproceeds).giveUp (.error halt.error)
        · rw [hfinish] at hproceeds
          exact (hdelivering.proceeds hproceeds).giveUp (.ok r.report)
    · intro e herror hsink _
      rcases (hledger.finish hdone).2.2 with ⟨report, hok, _⟩ | ⟨s, hs⟩
      · rw [hok] at herror
        cases herror
      · rw [hs] at herror
        cases herror
        exact absurd rfl (hsink s)

theorem Moment.staged {journal : Journal}
    (h : Moment options source sinks disk machine input journal now)
    (hall : options.readAll) (hfiles : ∀ file ∈ sinks.files, file.state = .unopened) :
    Staged options disk input journal now := by
  cases h with
  | between hstarts hreaches =>
    obtain ⟨_, _, hstage⟩ := hreaches.stage hstarts hall hfiles
    exact hstage.staged
  | @storing first mid r₁ r₂ input hstarts hreaches hbusy hfilled hvalidate hsome hpassing n =>
    obtain ⟨_, hledger, hstage⟩ := hreaches.stage hstarts hall hfiles
    have hvouched := (hledger.arrive hbusy hfilled).vouch hvalidate
    cases hstage.vouch hledger hbusy hfilled hvalidate with
    | reading hended _ _ =>
      have hpermit := r₂.granted_permit_le
      rw [hvouched.releasable_eq_zero hall hended] at hpermit
      exact absurd hsome (Nat.not_lt.2 hpermit)
    | delivering hdelivering =>
      obtain ⟨intake, bytes, hcomplete, hjournal⟩ := hdelivering.complete
      exact .delivering hcomplete (hjournal.trans (.log r₂.journal _))
  | ended hrun => exact (run_staged hall hfiles hrun).1

/-- **A relay that reads everything first delivers all or nothing.** At every moment of a run and
    after it, either nothing was delivered, or all of the input had been read and found whole before
    anything was: what the journal tells first is all of the reading, and no delivery. A run that
    fails to be set up, to wait, to read, to grow its buffer or to find the framing whole has
    delivered nothing, since only a sink or an overflow can fail it later. -/
theorem run_all_or_nothing (hall : options.readAll)
    (hfiles : ∀ file ∈ sinks.files, file.state = .unopened) :
    (∀ input journal now, Moment options source sinks disk machine input journal now →
      Staged options disk input journal now) ∧
    ∀ outcome e, run options source sinks disk machine = some outcome → outcome.result = .error e →
      (∀ s, e ≠ .sink s) → (∀ o, e ≠ .overflow o) →
        Undelivered options disk outcome.journal outcome.disk := by
  constructor
  · intro input journal now hmoment
    exact hmoment.staged hall hfiles
  · intro outcome e hrun herror hsink hoverflow
    exact (run_staged hall hfiles hrun).2 e herror hsink hoverflow

/-- Eighty bytes in a buffer that has to grow for them, a read that brings nothing, and then a bad
    escape. -/
theorem run_all_or_nothing_of_bad_escape :
    ∃ outcome,
      run { bufferSize := 66, readAll := true, throttle := 50, passThrough := true,
            readFraming := true, writeFraming := true }
          (.feed ⟨[], [.bytes (Tag.start.sequence ++ List.replicate 80 97), .wouldBlock,
            .bytes (marker ++ [120])]⟩ [])
          ⟨some .unlimited, [FileSink.ofPath "out"], false⟩
          (Disk.ofFiles [("out", [7])]) ⟨1048576, []⟩ = some outcome ∧
      outcome.result = .error (.framing (.invalidTag 120)) ∧ outcome.journal.bytesRead = 102 ∧
      outcome.journal.passed = Tag.start.sequence ∧ outcome.disk.contents "out" = [7] ∧
      Undelivered
        { bufferSize := 66, readAll := true, throttle := 50, passThrough := true,
          readFraming := true, writeFraming := true }
        (Disk.ofFiles [("out", [7])]) outcome.journal outcome.disk := by
  have hcourse :
      (run
        { bufferSize := 66, readAll := true, throttle := 50, passThrough := true,
          readFraming := true, writeFraming := true }
        (.feed ⟨[], [.bytes (Tag.start.sequence ++ List.replicate 80 97), .wouldBlock,
          .bytes (marker ++ [120])]⟩ [])
        ⟨some .unlimited, [FileSink.ofPath "out"], false⟩
        (Disk.ofFiles [("out", [7])]) ⟨1048576, []⟩).map
        (fun o => (o.result, o.journal.bytesRead, o.journal.passed, o.disk.contents "out")) =
      some (.error (.framing (.invalidTag 120)), 102, Tag.start.sequence, [7]) := by
    decide +kernel
  obtain ⟨outcome, hrun, houtcome⟩ := Option.map_eq_some_iff.1 hcourse
  obtain ⟨hresult, hrest⟩ := Prod.mk.inj houtcome
  obtain ⟨hread, hpassed, hcontents⟩ := Prod.mk.inj hrest |>.imp_right Prod.mk.inj
  have hundelivered := (run_all_or_nothing rfl (by decide)).2 outcome _ hrun hresult
    (fun _ => RelayError.noConfusion) (fun _ => RelayError.noConfusion)
  exact ⟨outcome, hrun, hresult, hread, hpassed, hcontents, hundelivered⟩

/-- With a finish escape in place of the bad one a payload is delivered. -/
example :
    (run
      { bufferSize := 66, readAll := true, passThrough := true, readFraming := true,
        writeFraming := true }
      (.feed ⟨[], [.bytes (Tag.start.sequence ++ List.replicate 60 97), .wouldBlock,
        .bytes Tag.finish.sequence]⟩ [])
      ⟨some .unlimited, [FileSink.ofPath "out"], false⟩
      (Disk.ofFiles [("out", [7])]) ⟨1048576, []⟩).map
      (fun o => (o.journal.passed, o.disk.contents "out")) =
      some (frame (List.replicate 60 97), List.replicate 60 97) := by
  decide +kernel

end Relay

end StreamRelay
