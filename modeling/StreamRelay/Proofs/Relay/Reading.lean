/-
  StreamRelay/Proofs/Relay/Reading.lean
  =====================================
  **When a relay turns to its source, and for how much.**

  An empty slice would be answered with no bytes, and that counts as the end of the input. None is
  ever offered: a full buffer is grown or left alone, and a relay that has reached its cap is at the
  end of its input (`asked_pos`). What a turn does with its source is told by the relay as it goes
  to read it (`reader?`, `approaching`), and every call that comes of it is made in a phase that
  allows it (`Ledger.follows_filled`).

  Main statement: `reads_keep_discipline`.
-/
import StreamRelay.Proofs.Relay.Budget
import StreamRelay.Proofs.Relay.Calls

namespace StreamRelay

namespace Relay

variable {o : Options} {r r' r₁ p : Relay} {halt : Halt} {input released : Bytes}

/-! ### Going to the source -/

/-- The relay after a wait that found input, or as it is if it does not wait; none if it may not
    read now. -/
def awaited? (r : Relay) : Option Relay :=
  if r.options.nonBlocking then
    match r.source.wait with
    | (.ok true, source) => some ({ r with source }.log [.waited true])
    | _ => none
  else some r

/-- **The relay as it goes to read its source in a turn**, if it does: its buffer grown if that was
    full, and its wait over. -/
def reader? (r : Relay) : Option Relay :=
  if r.ended then none
  else if r.buffer.isFull then
    if r.options.readAll then
      match r.buffer.grow? r.memory with
      | .error _ => none
      | .ok buffer => ({ r with buffer }.log [.grew buffer.capacity]).awaited?
    else none
  else r.awaited?

def slice (p : Relay) : Nat := (p.buffer.spare p.wanted).2

/-- How a turn comes to its source: not at all; to a wait that ends or fails without input; or to a
    read, by the relay as it stands then. -/
inductive Approaching (r : Relay) : Option Relay → Except Halt Relay → Prop where
  | away {result : Except Halt Relay} (hcalls : (standing result).journal.calls = r.journal.calls)
      (hsame : ∀ r₁, result = .ok r₁ → r₁ = r) : Approaching r none result
  | unready {buffer : ReadBuffer} {source : Source} {journal : Journal} (hended : r.ended = false)
      (hwaits : r.options.nonBlocking)
      (hcalls : journal.calls = r.journal.calls ++ [.waited false]) :
      Approaching r none (.ok { r with buffer, source, journal })
  | waitFailed {e : RelayError} {buffer : ReadBuffer} {source : Source} {journal : Journal}
      (hended : r.ended = false)
      (hwaits : r.options.nonBlocking) (hcalls : journal.calls = r.journal.calls ++ [.waitFailed]) :
      Approaching r none (.error ⟨e, { r with buffer, source, journal }⟩)
  | direct {buffer : ReadBuffer} {journal : Journal} (hended : r.ended = false)
      (hroom : r.Roomy buffer)
      (hfull : r.buffer.isFull → r.options.readAll) (hblocks : r.options.nonBlocking = false)
      (hcalls : journal.calls = r.journal.calls) :
      Approaching r (some { r with buffer, journal }) { r with buffer, journal }.readInput
  | waited {buffer : ReadBuffer} {source : Source} {journal : Journal} (hended : r.ended = false)
      (hroom : r.Roomy buffer)
      (hfull : r.buffer.isFull → r.options.readAll) (hwaits : r.options.nonBlocking)
      (hwait : r.source.wait = (.ok true, source))
      (hcalls : journal.calls = r.journal.calls ++ [.waited true]) :
      Approaching r (some { r with buffer, source, journal })
        { r with buffer, source, journal }.readInput

theorem approaching_awaitInput {buffer : ReadBuffer} {journal : Journal} (hended : r.ended = false)
    (hroom : r.Roomy buffer)
    (hfull : r.buffer.isFull → r.options.readAll) (hcalls : journal.calls = r.journal.calls) :
    r.Approaching { r with buffer, journal }.awaited? { r with buffer, journal }.awaitInput := by
  have hcalled (call : Event) (hcall : call.isCall) :
      Journal.calls (journal ++ [call]) = r.journal.calls ++ [call] := by
    rw [Journal.calls_append, hcalls, List.filter_singleton, hcall]
    rfl
  unfold awaited? awaitInput
  by_cases hwaits : r.options.nonBlocking
  · simp only [if_pos hwaits]
    rcases hwait : r.source.wait with ⟨fault | isReady, source⟩
    · exact .waitFailed hended hwaits (hcalled .waitFailed rfl)
    · cases isReady with
      | true => exact .waited hended hroom hfull hwaits hwait (hcalled (.waited true) rfl)
      | false => exact .unready hended hwaits (hcalled (.waited false) rfl)
  · simp only [if_neg hwaits]
    exact .direct hended hroom hfull (by simpa using hwaits) hcalls

/-- **How every turn comes to its source.** -/
theorem approaching (r : Relay) : r.Approaching r.reader? r.filled := by
  unfold reader? filled
  by_cases hended : r.ended
  · simp only [if_pos hended]
    exact .away rfl fun _ h => (Except.ok.inj h).symm
  · simp only [if_neg hended]
    rw [Bool.not_eq_true] at hended
    unfold fill
    by_cases hfull : r.buffer.isFull
    · simp only [if_pos hfull]
      by_cases hall : r.options.readAll
      · simp only [if_pos hall]
        rcases hgrow : r.buffer.grow? r.memory with bytes | buffer
        · refine .away rfl fun r₁ h => ?_
          cases h
        · have hview := ReadBuffer.view_grow? hgrow
          have hroom : r.room = r.buffer.capacity + max r.buffer.capacity 1 := if_pos hfull
          have hcapacity : buffer.capacity = r.room := by
            rw [hroom]
            unfold ReadBuffer.grow? at hgrow
            dsimp only at hgrow
            split at hgrow <;> cases hgrow
            rfl
          have hcalls : Journal.calls (r.journal ++ [Event.grew buffer.capacity]) =
              r.journal.calls :=
            Journal.calls_append_quiet _ (by simp [Event.isCall])
          exact approaching_awaitInput hended ⟨hview, hcapacity⟩ (fun _ => hall) hcalls
      · simp only [if_neg hall]
        exact .away rfl fun _ h => (Except.ok.inj h).symm
    · simp only [if_neg hfull]
      have hroom : r.room = r.buffer.capacity := if_neg hfull
      exact approaching_awaitInput hended ⟨rfl, hroom.symm⟩ (fun h => absurd h hfull) rfl

/-! ### One turn -/

def phase (r : Relay) : Phase := if r.ended then .ended r.bytesRead else .idle r.bytesRead

/-- **A read that is in order leaves the calls in order.** -/
theorem follows_readInput {q : Phase} (hended : p.ended = false) (hslice : 0 < p.slice)
    (hcap : 0 < p.options.stopAfter → p.bytesRead + p.slice ≤ p.options.stopAfter)
    (hfollows : Follows p.options p.journal.calls q)
    (hq : q = if p.options.nonBlocking then .ready p.bytesRead else .idle p.bytesRead) :
    ∃ q', Follows p.options (standing p.readInput).journal.calls q' ∧ ∀ r₁, p.readInput = .ok r₁ →
      q' = r₁.phase := by
  have hanswered (answer : ReadAnswer) (hfits : answer.Fits p.slice) :
      Follows p.options (Journal.calls (p.journal ++ [Event.read p.slice answer]))
        (Phase.answered p.options p.bytesRead answer) := by
    rw [Journal.calls_append]
    refine .call hfollows ?_
    have hfair : Phase.Fair p.options p.bytesRead p.slice answer := ⟨hslice, hcap, hfits⟩
    rw [hq]
    split
    · next hwaits => exact .waited hwaits hfair
    · next hblocks => exact .direct (by simpa using hblocks) hfair
  have hbounded := p.source.read_bounded p.disk p.slice
  unfold readInput
  unfold slice at *
  dsimp only
  generalize p.source.read p.disk (p.buffer.spare p.wanted).2 = answer at hbounded ⊢
  split
  · -- the clock cannot be kept: the read has not got into the journal
    refine ⟨q, hfollows, fun r₁ h => ?_⟩
    cases h
  · rcases answer with ⟨reading, elapsed, source⟩
    cases reading with
    | bytes bytes =>
      have hfits : ReadAnswer.Fits (p.buffer.spare p.wanted).2 (.bytes bytes.length) :=
        ⟨List.length_pos_iff.2 hbounded.1, hbounded.2⟩
      dsimp only
      rcases take_cases _ (p.buffer.spare p.wanted).2 bytes with ⟨_, htake, _⟩ | htake
      · rw [htake]
        refine ⟨_, hanswered (.bytes bytes.length) hfits, fun r₁ h => ?_⟩
        cases h
      · rw [htake]
        refine ⟨_, hanswered (.bytes bytes.length) hfits, fun r₁ h => ?_⟩
        cases h
        simp only [Phase.answered, phase, endsWith, decide_eq_true_eq]
    | endOfInput =>
      refine ⟨_, hanswered .endOfInput trivial, fun r₁ h => ?_⟩
      cases h
      rfl
    | notReady =>
      refine ⟨_, hanswered .notReady trivial, fun r₁ h => ?_⟩
      cases h
      exact (if_neg (by rw [hended]; exact Bool.noConfusion)).symm
    | failed fault =>
      refine ⟨_, hanswered .failed trivial, fun r₁ h => ?_⟩
      cases h

/-- **Every turn leaves the calls in order**, however it ends. -/
theorem Ledger.follows_filled (h : Ledger o input released r)
    (hfollows : Follows o r.journal.calls r.phase) :
    ∃ q, Follows o (standing r.filled).journal.calls q ∧ ∀ r₁, r.filled = .ok r₁ →
      q = r₁.phase := by
  have hasked (hended : r.ended = false) : 0 < r.asked := asked_pos h hended
  have hread := h.bytesRead
  have hcapped := h.capped
  obtain rfl := h.options
  have hidle (hended : r.ended = false) : r.phase = .idle r.bytesRead :=
    if_neg (by rw [hended]; exact Bool.noConfusion)
  have hcap (hended : r.ended = false) (hcap : 0 < r.options.stopAfter) : r.bytesRead + r.asked ≤
      r.options.stopAfter := by
    have hunder := (hcapped hcap).2 hended
    have hasked := asked_le_of_capped hcap
    omega
  have happroaching := r.approaching
  generalize r.reader? = reader at happroaching
  generalize r.filled = result at happroaching ⊢
  -- a wait is a call of its own, and a read that waited is made in the phase after it
  cases happroaching with
  | away hcalls hsame =>
    refine ⟨r.phase, hcalls ▸ hfollows, fun r₁ hok => ?_⟩
    rw [hsame r₁ hok]
  | unready hended hwaits hcalls =>
    rw [hidle hended] at hfollows
    have hcalled := Follows.call hfollows (.unready hwaits)
    rw [← hcalls] at hcalled
    refine ⟨_, hcalled, fun r₁ hok => ?_⟩
    cases hok
    exact (hidle hended).symm
  | waitFailed hended hwaits hcalls =>
    rw [hidle hended] at hfollows
    have hcalled := Follows.call hfollows (.waitFailed hwaits)
    rw [← hcalls] at hcalled
    refine ⟨_, hcalled, fun r₁ hok => ?_⟩
    cases hok
  | @direct buffer journal hended hroom hfull hblocks hcalls =>
    have hslice : slice { r with buffer, journal } = r.asked := hroom.spare_eq r.source journal
    rw [hidle hended, ← hcalls] at hfollows
    refine follows_readInput (p := { r with buffer, journal }) hended ?_ ?_ hfollows ?_
    · rw [hslice]
      exact hasked hended
    · rw [hslice]
      exact hcap hended
    · exact (if_neg (by rw [hblocks]; exact Bool.noConfusion)).symm
  | @waited buffer source journal hended hroom hfull hwaits hwait hcalls =>
    have hslice : slice { r with buffer, source, journal } = r.asked :=
      hroom.spare_eq source journal
    rw [hidle hended] at hfollows
    have hready := Follows.call hfollows (.found hwaits)
    rw [← hcalls] at hready
    refine follows_readInput (p := { r with buffer, source, journal }) hended ?_ ?_ hready ?_
    · rw [hslice]
      exact hasked hended
    · rw [hslice]
      exact hcap hended
    · exact (if_pos hwaits).symm

/-- A buffer that is not to hold the whole input keeps its size. -/
theorem capacity_filled (hall : r.options.readAll = false) (hfilled : r.filled = .ok r₁) :
    r₁.buffer.capacity = r.buffer.capacity := by
  by_cases hidle : r.ended ∨ r.buffer.isFull
  · have hsame : r.filled = .ok r := by
      unfold filled fill
      rcases hidle with hended | hfull
      · rw [if_pos hended]
      · rw [if_pos hfull, hall]
        simp
    rw [hsame] at hfilled
    cases hfilled
    rfl
  · have hroom : r.room = r.buffer.capacity := if_neg fun hfull => hidle (Or.inr hfull)
    have hfilling := r.filling
    rw [hfilled] at hfilling
    cases hfilling with
    | idle _ => rfl
    | received _ _ _ _ hcapacity _ _ => exact hcapacity.trans hroom

/-! ### Every relay that is reached -/

/-- **A read as it is to be**, by a relay `p` that `r` has become on its way to the source. The
    slice is all of the free space, as far as the cap leaves it, and not empty; so an answer of no
    bytes means that there are none. -/
structure ReadsWell (o : Options) (r p : Relay) : Prop where
  slice_pos : 0 < p.slice
  slice_eq : p.slice =
    if o.stopAfter = 0 then p.buffer.capacity - p.buffer.length
    else min (p.buffer.capacity - p.buffer.length) (o.stopAfter - p.bytesRead)
  under : 0 < o.stopAfter → p.bytesRead < o.stopAfter
  capacity : o.readAll = false → p.buffer.capacity = o.bufferSize
  waited : if o.nonBlocking then r.source.wait = (.ok true, p.source) ∧
    p.journal.calls = r.journal.calls ++ [.waited true]
    else p.source = r.source ∧ p.journal.calls = r.journal.calls
  drained : (p.source.read p.disk p.slice).reading = .endOfInput → p.source.Drained p.disk

/-- **A relay that keeps to the discipline of reads**: in what it has read so far, and in the read
    of its next turn. -/
structure Disciplined (o : Options) (r : Relay) : Prop where
  counted : (r.journal.calls.map Event.bytesRead).sum = r.bytesRead
  within : 0 < o.stopAfter → r.bytesRead ≤ o.stopAfter
  capacity : o.readAll = false → r.buffer.capacity = o.bufferSize
  orderly : Orderly o r.journal.calls
  reads : ∀ p, r.reader? = some p → r.filled = p.readInput ∧ ReadsWell o r p
  unread : r.reader? = none →
    ∃ waits, (standing r.filled).journal.calls = r.journal.calls ++ waits ∧
      ∀ call ∈ waits, call.isRead = false

theorem slice_eq (p : Relay) : p.slice =
    if p.options.stopAfter = 0 then p.buffer.capacity - p.buffer.length
    else min (p.buffer.capacity - p.buffer.length) (p.options.stopAfter - p.bytesRead) := by
  rw [slice, ReadBuffer.spare_snd, wanted, Nat.min_comm]
  split
  · exact Nat.min_eq_left (Nat.sub_le _ _)
  · rfl

theorem Ledger.readsWell (h : Ledger o input released r)
    (hcapacity : o.readAll = false → r.buffer.capacity = o.bufferSize)
    {buffer : ReadBuffer} {source : Source} {journal : Journal} (hended : r.ended = false)
    (hroom : r.Roomy buffer) (hfull : r.buffer.isFull → r.options.readAll)
    (hwaited : if o.nonBlocking then r.source.wait = (.ok true, source) ∧
      journal.calls = r.journal.calls ++ [.waited true]
      else source = r.source ∧ journal.calls = r.journal.calls) :
    ReadsWell o r { r with buffer, source, journal } := by
  have hslice : slice { r with buffer, source, journal } = r.asked := hroom.spare_eq source journal
  have hpos : 0 < slice { r with buffer, source, journal } := by
    rw [hslice]
    exact asked_pos h hended
  have hread := h.bytesRead
  have hcapped := h.capped
  obtain rfl := h.options
  refine ⟨hpos, slice_eq { r with buffer, source, journal }, fun hcap => ?_, fun hall => ?_,
    hwaited,
    Source.drained_of_endOfInput hpos⟩
  · rw [← hread] at hcapped
    exact (hcapped hcap).2 hended
  · have hroomy : r.room = r.buffer.capacity := by
      refine if_neg fun hf => ?_
      rw [hfull hf] at hall
      cases hall
    exact hroom.capacity.trans (hroomy.trans (hcapacity hall))

theorem Ledger.disciplined (h : Ledger o input released r)
    (hfollows : Follows o r.journal.calls r.phase)
    (hcapacity : o.readAll = false → r.buffer.capacity = o.bufferSize) : Disciplined o r := by
  have hphase : r.phase.read = r.bytesRead := by
    unfold phase
    split <;> rfl
  have happroaching := r.approaching
  refine ⟨hfollows.sum_bytesRead.trans hphase, fun hcap => ?_, hcapacity, hfollows.orderly,
    fun p hp => ?_, fun hnone => ?_⟩
  · rw [← hphase]
    exact (hfollows.capped hcap).1
  · -- the reader that is chosen is the one that is called
    rw [hp] at happroaching
    generalize r.filled = result at happroaching ⊢
    cases happroaching with
    | direct hended hroom hfull hblocks hcalls =>
      refine ⟨rfl, h.readsWell hcapacity hended hroom hfull ?_⟩
      rw [← h.options, hblocks]
      exact ⟨rfl, hcalls⟩
    | waited hended hroom hfull hwaits hwait hcalls =>
      refine ⟨rfl, h.readsWell hcapacity hended hroom hfull ?_⟩
      rw [← h.options, hwaits]
      exact ⟨hwait, hcalls⟩
  · rw [hnone] at happroaching
    generalize r.filled = result at happroaching ⊢
    cases happroaching with
    | away hcalls _ => exact ⟨[], by rw [List.append_nil]; exact hcalls, by simp⟩
    | unready _ _ hcalls => exact ⟨_, hcalls, by simp [Event.isRead]⟩
    | waitFailed _ _ hcalls => exact ⟨_, hcalls, by simp [Event.isRead]⟩

/-! ### Whole runs -/

variable {options : Options} {source : Source} {sinks : Sinks} {disk : Disk} {machine : Machine}
  {first mid : Relay} {result : Outcome}

/-- Framing the output or not makes no difference to the reads. -/
theorem Disciplined.of_settled (h : Disciplined options.settled r) : Disciplined options r := by
  refine ⟨h.counted, h.within, h.capacity, ?_, fun p hp => ?_, h.unread⟩
  · exact ⟨h.orderly.reads, h.orderly.waits, h.orderly.unwaited, h.orderly.capped, h.orderly.last⟩
  · obtain ⟨hfilled, hread⟩ := h.reads p hp
    exact ⟨hfilled, hread.slice_pos, hread.slice_eq, hread.under, hread.capacity, hread.waited,
      hread.drained⟩

theorem calls_of_prepare_error {e : RelayError} {warnings : List Event}
    (h : prepare options source sinks disk machine = .error (e, warnings)) :
    Journal.calls warnings.toArray = [] := by
  unfold prepare at h
  split at h
  · cases h
    rfl
  · next hvalidate =>
    have hnone := Journal.calls_warnings hvalidate
    split at h
    · cases h
      exact hnone
    · split at h <;> cases h
      exact hnone

theorem calls_begin (h : prepare options source sinks disk machine = .ok r) :
    (standing r.begin).journal.calls = [] := by
  obtain ⟨o, warnings, buffer, progress, hvalidate, _, _, rfl⟩ := prepare_ok h
  rw [begin_eq, calls_passOnly]
  exact Journal.calls_warnings hvalidate

theorem Starts.follows (h : Starts options source sinks disk machine first) :
    Follows options.settled first.journal.calls first.phase ∧
      (options.settled.readAll = false → first.buffer.capacity = options.settled.bufferSize) := by
  have hcalls : first.journal.calls = [] := by
    obtain ⟨r, hprepare, hbegin⟩ := h
    have hnone := calls_begin hprepare
    rwa [hbegin] at hnone
  obtain ⟨warnings, buffer, progress, bytes, journal, hbuffer, _, _, rfl⟩ := h.eq
  rw [hcalls]
  exact ⟨.start, fun _ => (view_ofCapacity? hbuffer).2.1⟩

/-- **The calls of every relay that is reached are in order**, and its buffer has its size. -/
theorem Reaches.follows (hreaches : Reaches first input mid) (hledger : Ledger o [] [] first)
    (hstart : Follows o first.journal.calls first.phase ∧
    (o.readAll = false → first.buffer.capacity = o.bufferSize)) :
    (∃ released, Ledger o input released mid) ∧ Follows o mid.journal.calls mid.phase ∧
      (o.readAll = false → mid.buffer.capacity = o.bufferSize) := by
  refine hreaches.preserves (P := fun input r => (∃ released, Ledger o input released r) ∧
    Follows o r.journal.calls r.phase ∧ (o.readAll = false → r.buffer.capacity = o.bufferSize)) ?_
    ⟨⟨[], hledger⟩, hstart⟩
  rintro input r r' ⟨⟨released, hledger⟩, hfollows, hcapacity⟩ hbusy hturn
  obtain ⟨block, hledger'⟩ := hledger.turn hbusy hturn
  obtain ⟨r₁, hfilled, _, hended, hread, hsize⟩ := turn_frame hturn
  have hphase : r'.phase = r₁.phase := by rw [phase, phase, hended, hread]
  obtain ⟨q, hcalls, hq⟩ := hledger.follows_filled hfollows
  have hsame := r.calls_turn
  rw [hturn] at hsame
  refine ⟨⟨_, hledger'⟩, ?_, fun hall => ?_⟩
  · rw [hphase, ← hq r₁ hfilled]
    exact hsame.symm ▸ hcalls
  · rw [hsize, capacity_filled (hledger.options.symm ▸ hall) hfilled]
    exact hcapacity hall

theorem Reaches.turns_eq {n : Nat} {last : Except Halt Relay} (hreaches : Reaches first input mid)
    (hbusy : mid.isDone = false) (hturns : turns n first = some last) :
    ∃ m, turns m mid = some last := by
  induction hreaches with
  | refl => exact ⟨n, hturns⟩
  | turn _ hbusy' hturn ih =>
    obtain ⟨m, hm⟩ := ih hbusy'
    cases m with
    | zero => cases hm
    | succ m =>
      rw [turns, hturn] at hm
      simp only [hbusy, Bool.false_eq_true, if_false] at hm
      exact ⟨m, hm⟩

theorem Reaches.result_eq (hreaches : Reaches first input mid)
    (hstarts : Starts options source sinks disk machine first)
    (hbusy : mid.isDone = false) (hturn : mid.turn = .error halt)
    (hrun : run options source sinks disk machine = some result) :
    result = outcome (.error halt) := by
  obtain ⟨r, hprepare, hbegin⟩ := hstarts
  rw [run_eq, hprepare] at hrun
  dsimp only at hrun
  rw [complete, hbegin] at hrun
  dsimp only at hrun
  rcases hturns : turns first.enoughTurns first with _ | last
  · rw [hturns] at hrun
    cases hrun
  · rw [hturns] at hrun
    obtain ⟨m, hm⟩ := hreaches.turns_eq hbusy hturns
    cases m with
    | zero => cases hm
    | succ m =>
      rw [turns, hturn] at hm
      cases hm
      cases hrun
      rfl

/-- **Every run keeps to the discipline of reads.** In every relay that is reached, each slice that
    is offered to the source is all of the free space as far as the cap leaves it, and not empty;
    what is read stays within the cap; if reads must not block, a wait that found input comes right
    before each, and otherwise there is none; after the end of the input, the cap or a failed call
    the source is not turned to again, and neither is it after any other failure; and a buffer that
    is not to hold the whole input keeps its size. A run that does not get to its first turn makes
    no call. -/
theorem reads_keep_discipline (options : Options) (source : Source) (sinks : Sinks) (disk : Disk)
    (machine : Machine) :
    (∀ first input mid, Starts options source sinks disk machine first → Reaches first input mid →
        Disciplined options mid ∧
          ∀ halt, mid.isDone = false → mid.turn = .error halt →
            Orderly options halt.relay.journal.calls ∧
            ∀ result, run options source sinks disk machine = some result →
              result = outcome (.error halt) ∧ result.journal.calls = halt.relay.journal.calls) ∧
      ∀ result, run options source sinks disk machine = some result →
        Orderly options result.journal.calls ∧
        ((∀ first, ¬ Starts options source sinks disk machine first) →
          result.journal.calls = []) := by
  have hreached {first input mid} (hstarts : Starts options source sinks disk machine first)
      (hreaches : Reaches first input mid) : (∃ released,
      Ledger options.settled input released mid) ∧
        Follows options.settled mid.journal.calls mid.phase ∧
          (options.settled.readAll = false → mid.buffer.capacity = options.settled.bufferSize) :=
    hreaches.follows hstarts.ledger hstarts.follows
  -- the cap and the waits are the same whether the output is framed or not
  have hordered {calls q} (h : Follows options.settled calls q) : Orderly options calls :=
    ⟨h.orderly.reads, h.orderly.waits, h.orderly.unwaited, h.orderly.capped, h.orderly.last⟩
  have hhalted {first input mid halt} (hstarts : Starts options source sinks disk machine first)
      (hreaches : Reaches first input mid)
      (hturn : mid.turn = .error halt) : Orderly options halt.relay.journal.calls := by
    obtain ⟨⟨_, hledger⟩, hfollows, _⟩ := hreached hstarts hreaches
    obtain ⟨q, hcalls, _⟩ := hledger.follows_filled hfollows
    rw [← calls_turn, hturn] at hcalls
    exact hordered hcalls
  constructor
  · intro first input mid hstarts hreaches
    obtain ⟨⟨_, hledger⟩, hfollows, hcapacity⟩ := hreached hstarts hreaches
    refine ⟨(hledger.disciplined hfollows hcapacity).of_settled, fun halt hbusy hturn => ?_⟩
    refine ⟨hhalted hstarts hreaches hturn, fun result hrun => ?_⟩
    have hresult := hreaches.result_eq hstarts hbusy hturn hrun
    refine ⟨hresult, ?_⟩
    rw [hresult, calls_outcome]
    rfl
  · intro result hrun
    cases course hrun with
    | unprepared hprepare hresult =>
      have hnone := calls_of_prepare_error hprepare
      rw [hresult]
      dsimp only
      rw [hnone]
      exact ⟨hordered .start, fun _ => rfl⟩
    | unopened hprepare hbegin hresult =>
      have hnone := calls_begin hprepare
      rw [hbegin] at hnone
      rw [hresult, calls_outcome, hnone]
      exact ⟨hordered .start, fun _ => rfl⟩
    | halted hstarts hreaches _ hturn _ hresult =>
      rw [hresult, calls_outcome]
      exact ⟨hhalted hstarts hreaches hturn, fun hnone => absurd hstarts (hnone _)⟩
    | closed hstarts hreaches _ hresult =>
      obtain ⟨_, hfollows, _⟩ := hreached hstarts hreaches
      rw [hresult, calls_outcome, calls_finish]
      exact ⟨hordered hfollows, fun hnone => absurd hstarts (hnone _)⟩

/-- A cap of three bytes and reads that must not block: after a wait without input and a read of two
    bytes, the next read asks for one. -/
theorem reads_keep_discipline_to_cap :
    ∃ first mid p input result,
      Starts { nonBlocking := true, stopAfter := 3 }
        (.feed ⟨[], [.bytes [1, 2], .bytes [3, 4]]⟩ [.ready false])
        ⟨none, [], false⟩ (Disk.ofFiles []) ⟨1048576, []⟩ first ∧
      Reaches first input mid ∧ mid.bytesRead = 2 ∧ mid.reader? = some p ∧
      ReadsWell { nonBlocking := true, stopAfter := 3 } mid p ∧ p.slice = 1 ∧
      run { nonBlocking := true, stopAfter := 3 }
        (.feed ⟨[], [.bytes [1, 2], .bytes [3, 4]]⟩ [.ready false])
        ⟨none, [], false⟩ (Disk.ofFiles []) ⟨1048576, []⟩ = some result ∧
      Orderly { nonBlocking := true, stopAfter := 3 } result.journal.calls := by
  have hcourse :
      (prepare { nonBlocking := true, stopAfter := 3 }
        (.feed ⟨[], [.bytes [1, 2], .bytes [3, 4]]⟩ [.ready false])
        ⟨none, [], false⟩ (Disk.ofFiles []) ⟨1048576, []⟩).toOption.any fun r =>
        r.begin.toOption.any fun first => first.turn.toOption.any fun second =>
        second.turn.toOption.any fun mid =>
          !first.isDone && !second.isDone && mid.bytesRead == 2 &&
          mid.reader?.any fun p => p.slice == 1 := by
    decide +kernel
  have hends :
      (run { nonBlocking := true, stopAfter := 3 }
        (.feed ⟨[], [.bytes [1, 2], .bytes [3, 4]]⟩ [.ready false])
        ⟨none, [], false⟩ (Disk.ofFiles []) ⟨1048576, []⟩).isSome := by
    decide +kernel
  obtain ⟨result, hrun⟩ := Option.isSome_iff_exists.1 hends
  obtain ⟨r, hprepare, hcourse⟩ := exists_ok hcourse
  obtain ⟨first, hbegin, hcourse⟩ := exists_ok hcourse
  obtain ⟨second, hturn, hcourse⟩ := exists_ok hcourse
  obtain ⟨mid, hturn', hcourse⟩ := exists_ok hcourse
  simp only [Bool.and_eq_true, Bool.not_eq_true', beq_iff_eq, Option.any_eq_true] at hcourse
  obtain ⟨⟨⟨hbusy, hbusy'⟩, hread⟩, p, hreader, hslice⟩ := hcourse
  have hreaches := (Reaches.refl.turn hbusy hturn).turn hbusy' hturn'
  obtain ⟨hreached, hresults⟩ := reads_keep_discipline { nonBlocking := true, stopAfter := 3 }
    (.feed ⟨[], [.bytes [1, 2], .bytes [3, 4]]⟩ [.ready false])
    ⟨none, [], false⟩ (Disk.ofFiles []) ⟨1048576, []⟩
  obtain ⟨hdisciplined, _⟩ := hreached first _ mid ⟨r, hprepare, hbegin⟩ hreaches
  exact ⟨first, mid, p, _, result, ⟨r, hprepare, hbegin⟩, hreaches, hread, hreader,
    (hdisciplined.reads p hreader).2, hslice, hrun, (hresults result hrun).1⟩

end Relay

end StreamRelay
