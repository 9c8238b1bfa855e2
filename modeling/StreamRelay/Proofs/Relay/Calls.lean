/-
  StreamRelay/Proofs/Relay/Calls.lean
  ===================================
  **The calls of the source, and their order.**

  The calls of the source are the waits and the reads of the journal. A relay is idle between two
  turns, ready after a wait that found input, and ended once it must not turn to its source again
  (`Phase`). Calls that are each made in a phase that allows them (`Follows`) are in order: a read
  comes right after the wait that it is due, and none comes after the end (`Follows.orderly`).

  No part of a turn but its reading calls the source (`Relay.calls_turn`), and neither does opening
  or closing.
-/
import StreamRelay.Proofs.Relay.Traces

namespace StreamRelay

/-! ### Calls of the source -/

def Event.isCall : Event → Bool
  | .waited _ | .waitFailed | .read _ _ => true
  | _ => false

def Event.isRead : Event → Bool
  | .read _ _ => true
  | _ => false

/-- **The calls of the source that a journal tells of**, in order. -/
def Journal.calls (j : Journal) : List Event := j.toList.filter Event.isCall

theorem Event.not_call_of_isOpening {event : Event} (h : event.isOpening) :
    event.isCall = false := by
  cases event <;> simp [isOpening] at h <;> rfl

theorem Event.not_call_of_isFiling {event : Event} (h : event.isFiling) : event.isCall = false := by
  cases event <;> simp [isFiling] at h <;> rfl

theorem Event.outer_isCall : Event.Outer Event.isCall :=
  ⟨fun _ h => not_call_of_isOpening h, fun event h => by cases event <;>
    simp [isServing] at h <;> rfl⟩

theorem Journal.calls_append (j : Journal) (events : List Event) :
    Journal.calls (j ++ events) = j.calls ++ events.filter Event.isCall :=
  Journal.ofKind_append j events

theorem Journal.calls_append_quiet (j : Journal) {events : List Event}
    (h : ∀ event ∈ events, event.isCall = false) :
    Journal.calls (j ++ events) = j.calls :=
  Journal.ofKind_append_quiet j h

theorem Journal.calls_warnings {o options : Options} {warnings : List Event}
    (h : options.validate = .ok (o, warnings)) :
    Journal.calls warnings.toArray = [] := by
  simp only [Journal.calls, List.filter_eq_nil_iff, Bool.not_eq_true]
  intro event hmem
  exact Event.not_call_of_isOpening (Options.isOpening_warnings h event hmem)

/-! ### The order of the calls -/

def ReadAnswer.Fits (want : Nat) : ReadAnswer → Prop
  | .bytes count => 0 < count ∧ count ≤ want
  | _ => True

/-- How a relay stands with its source after so many bytes read: it may turn to it, it was told that
    input is there, or it must not turn to it any more. -/
inductive Phase where
  | idle (read : Nat)
  | ready (read : Nat)
  | ended (read : Nat)

namespace Phase

def read : Phase → Nat
  | .idle read | .ready read | .ended read => read

def answered (o : Options) (read : Nat) : ReadAnswer → Phase
  | .bytes count => if 0 < o.stopAfter ∧ o.stopAfter ≤ read + count then .ended (read + count)
      else .idle (read + count)
  | .notReady => .idle read
  | .endOfInput | .failed => .ended read

/-- A read of `want` bytes at a time when `read` were read is in order, and so is its answer. -/
structure Fair (o : Options) (read want : Nat) (answer : ReadAnswer) : Prop where
  pos : 0 < want
  capped : 0 < o.stopAfter → read + want ≤ o.stopAfter
  fits : answer.Fits want

inductive Call (o : Options) : Phase → Event → Phase → Prop where
  | found {read : Nat} (hwaits : o.nonBlocking) : Call o (.idle read) (.waited true) (.ready read)
  | unready {read : Nat} (hwaits : o.nonBlocking) : Call o (.idle read) (.waited false) (.idle read)
  | waitFailed {read : Nat} (hwaits : o.nonBlocking) : Call o (.idle read) .waitFailed (.ended read)
  | direct {read want : Nat} {answer : ReadAnswer} (hblocks : o.nonBlocking = false)
      (hfair : Fair o read want answer) :
      Call o (.idle read) (.read want answer) (answered o read answer)
  | waited {read want : Nat} {answer : ReadAnswer} (hwaits : o.nonBlocking)
      (hfair : Fair o read want answer) :
      Call o (.ready read) (.read want answer) (answered o read answer)

variable {o : Options} {n want : Nat} {answer : ReadAnswer}

theorem read_answered (o : Options) (n want : Nat) (answer : ReadAnswer) :
    (answered o n answer).read = n + (Event.read want answer).bytesRead := by
  cases answer with
  | bytes count =>
    rw [answered]
    split <;> rfl
  | _ => rfl

def Capped (o : Options) (p : Phase) : Prop :=
  p.read ≤ o.stopAfter ∧ ∀ n, p = .idle n ∨ p = .ready n → n < o.stopAfter

theorem Fair.capped_answered (h : Fair o n want answer) (hcap : 0 < o.stopAfter) :
    Capped o (answered o n answer) := by
  have hroom := h.capped hcap
  have hpos := h.pos
  cases answer with
  | bytes count =>
    have hfits : 0 < count ∧ count ≤ want := h.fits
    rw [answered]
    by_cases hreached : 0 < o.stopAfter ∧ o.stopAfter ≤ n + count
    · rw [if_pos hreached]
      refine ⟨by simp only [read]; omega, fun m hm => ?_⟩
      rcases hm with hm | hm <;> cases hm
    · rw [if_neg hreached]
      refine ⟨by simp only [read]; omega, fun m hm => ?_⟩
      rcases hm with hm | hm <;> cases hm
      omega
  | notReady =>
    refine ⟨by simp only [answered, read]; omega, fun m hm => ?_⟩
    rcases hm with hm | hm <;> cases hm
    omega
  | _ =>
    refine ⟨by simp only [answered, read]; omega, fun m hm => ?_⟩
    rcases hm with hm | hm <;> cases hm

end Phase

/-- Calls that were each made in a phase that allows them, and the phase after the last. -/
inductive Follows (o : Options) : List Event → Phase → Prop where
  | start : Follows o [] (.idle 0)
  | call {calls : List Event} {before after : Phase} {call : Event} (h : Follows o calls before)
      (hcall : Phase.Call o before call after) : Follows o (calls ++ [call]) after

/-- **A call after which the source is done with**: a wait or a read that fails, the end of the
    input, or the read that reaches the cap. -/
def Event.Ends (o : Options) (before : List Event) (call : Event) : Prop :=
  (call = .waitFailed ∨ ∃ want, call = .read want .endOfInput ∨ call = .read want .failed) ∨
    0 < o.stopAfter ∧ o.stopAfter ≤ ((before ++ [call]).map Event.bytesRead).sum

/-- **Calls of the source in their order.** Each read asks for something, and bytes that it brings
    are some and no more than that; if reads must not block, each comes right after a wait that
    found input, and otherwise nothing waits; what is read stays within the cap; and after a call
    that ends it all there is none. -/
structure Orderly (o : Options) (calls : List Event) : Prop where
  reads : ∀ want answer, Event.read want answer ∈ calls → 0 < want ∧ answer.Fits want
  waits : o.nonBlocking → ∀ before want answer after, calls = before ++ .read want answer :: after →
    ∃ earlier, before = earlier ++ [.waited true]
  unwaited : o.nonBlocking = false → ∀ call ∈ calls, call.isRead
  capped : 0 < o.stopAfter → (calls.map Event.bytesRead).sum ≤ o.stopAfter
  last : ∀ before call after, calls = before ++ call :: after → call.Ends o before → after = []

namespace Follows

variable {o : Options} {calls before after : List Event} {call : Event} {p q : Phase} {n : Nat}

theorem sum_bytesRead (h : Follows o calls p) : (calls.map Event.bytesRead).sum = p.read := by
  induction h with
  | start => rfl
  | call _ hcall ih =>
    rw [List.map_append, List.sum_append, ih]
    cases hcall with
    | direct _ _ => exact (Phase.read_answered _ _ _ _).symm
    | waited _ _ => exact (Phase.read_answered _ _ _ _).symm
    | _ => rfl

theorem capped (h : Follows o calls p) (hcap : 0 < o.stopAfter) : p.Capped o := by
  have hkept {m : Nat} {p : Phase} (h : Phase.Capped o (.idle m))
      (hread : p.read = m) : p.Capped o := by
    refine ⟨hread ▸ h.1, fun n hn => ?_⟩
    have hsame : n = m := by rcases hn with rfl | rfl <;> exact hread
    exact hsame ▸ h.2 m (Or.inl rfl)
  induction h with
  | start =>
    refine ⟨Nat.zero_le _, fun n hn => ?_⟩
    rcases hn with hn | hn <;> cases hn
    exact hcap
  | call _ hcall ih =>
    cases hcall with
    | found _ => exact hkept ih rfl
    | unready _ => exact ih
    | waitFailed _ => exact hkept ih rfl
    | direct _ hfair => exact hfair.capped_answered hcap
    | waited _ hfair => exact hfair.capped_answered hcap

/-- A relay is ready right after a wait that found input. -/
theorem ready (h : Follows o calls (.ready n)) : ∃ earlier, calls = earlier ++ [.waited true] := by
  generalize hp : Phase.ready n = p at h
  cases h with
  | start => cases hp
  | @call calls _ _ _ _ hcall =>
    cases hcall with
    | found _ => exact ⟨calls, rfl⟩
    | unready _ => cases hp
    | waitFailed _ => cases hp
    | @direct _ _ answer _ _ =>
      cases answer with
      | bytes count =>
        rw [Phase.answered] at hp
        split at hp <;> cases hp
      | _ => cases hp
    | @waited _ _ answer _ _ =>
      cases answer with
      | bytes count =>
        rw [Phase.answered] at hp
        split at hp <;> cases hp
      | _ => cases hp

/-- **Every call was made in a phase that allows it**, and none after the source was done with. -/
theorem split (h : Follows o calls q) (hcalls : calls = before ++ call :: after) :
    ∃ p p', Follows o before p ∧ Phase.Call o p call p' ∧
      (∀ n, p' = .ended n → after = [] ∧ q = .ended n) := by
  induction h generalizing after with
  | start => simp at hcalls
  | @call calls p q last h hlast ih =>
    rcases List.eq_nil_or_concat after with rfl | ⟨middle, event, rfl⟩
    · obtain ⟨rfl, hsame⟩ := List.append_inj' hcalls rfl
      cases hsame
      exact ⟨p, q, h, hlast, fun n hended => ⟨rfl, hended⟩⟩
    · rw [List.concat_eq_append, ← List.cons_append, ← List.append_assoc] at hcalls
      obtain ⟨hinit, hsame⟩ := List.append_inj' hcalls rfl
      cases hsame
      obtain ⟨p', p'', hbefore, hcall, hended⟩ := ih hinit
      refine ⟨p', p'', hbefore, hcall, fun n hn => ?_⟩
      obtain ⟨_, rfl⟩ := hended n hn
      cases hlast

/-- **Calls that follow the phases are in order.** -/
theorem orderly (h : Follows o calls q) : Orderly o calls := by
  -- each call is looked at in the phase that it was made in
  constructor
  · intro want answer hmem
    obtain ⟨before, after, hcalls⟩ := List.append_of_mem hmem
    obtain ⟨p, p', _, hcall, _⟩ := h.split hcalls
    cases hcall with
    | direct _ hfair => exact ⟨hfair.pos, hfair.fits⟩
    | waited _ hfair => exact ⟨hfair.pos, hfair.fits⟩
  · intro hwaits before want answer after hcalls
    obtain ⟨p, p', hbefore, hcall, _⟩ := h.split hcalls
    cases hcall with
    | direct hblocks _ =>
      rw [hblocks] at hwaits
      cases hwaits
    | waited _ _ => exact hbefore.ready
  · intro hblocks call hmem
    obtain ⟨before, after, hcalls⟩ := List.append_of_mem hmem
    obtain ⟨p, p', _, hcall, _⟩ := h.split hcalls
    cases hcall with
    | direct _ _ => rfl
    | waited _ _ => rfl
    | found hwaits => exact absurd (hblocks.symm.trans hwaits) Bool.noConfusion
    | unready hwaits => exact absurd (hblocks.symm.trans hwaits) Bool.noConfusion
    | waitFailed hwaits => exact absurd (hblocks.symm.trans hwaits) Bool.noConfusion
  · intro hcap
    rw [h.sum_bytesRead]
    exact (h.capped hcap).1
  · -- the call leads to a phase from which none is made
    intro before call after hcalls hends
    obtain ⟨p, p', hbefore, hcall, hended⟩ := h.split hcalls
    have hsum := (Follows.call hbefore hcall).sum_bytesRead
    have hended' : ∃ n, p' = .ended n := by
      rcases hends with (rfl | ⟨want, rfl | rfl⟩) | ⟨hcap, hreached⟩
      · cases hcall
        exact ⟨_, rfl⟩
      · cases hcall <;> exact ⟨_, rfl⟩
      · cases hcall <;> exact ⟨_, rfl⟩
      · have hunder := ((Follows.call hbefore hcall).capped hcap).2
        rw [hsum] at hreached
        cases p' with
        | ended n => exact ⟨n, rfl⟩
        | idle n => exact absurd (hunder n (Or.inl rfl)) (Nat.not_lt_of_le hreached)
        | ready n => exact absurd (hunder n (Or.inr rfl)) (Nat.not_lt_of_le hreached)
    obtain ⟨n, hn⟩ := hended'
    exact (hended n hn).1

end Follows

namespace Relay

/-! ### Parts of a turn that leave the source alone -/

theorem calls_passOnly (r : Relay) (bytes : Bytes) :
    (standing (r.passOnly bytes)).journal.calls = r.journal.calls :=
  ofKind_passOnly Event.outer_isCall r bytes

theorem calls_finish (r : Relay) : (standing r.finish).journal.calls = r.journal.calls := by
  refine ofKind_finish Event.outer_isCall fun event hmem => ?_
  exact Event.not_call_of_isFiling (Sinks.isFiling_eachFile FileSink.isFiling_close _ _ event hmem)

theorem calls_outcome (result : Except Halt Relay) :
    (outcome result).journal.calls = (standing result).journal.calls := by
  refine ofKind_outcome result fun event hmem => ?_
  exact Event.not_call_of_isFiling (Sinks.isFiling_release _ _ event hmem)

theorem calls_turn (r : Relay) :
    (standing r.turn).journal.calls = (standing r.filled).journal.calls := by
  have hserved (r : Relay) : (standing (r.releaseReady.bind tick)).journal.calls =
      r.journal.calls := by
    refine (ofKind_bind (ofKind_tick Event.outer_isCall) _).trans
      (ofKind_releaseReady Event.outer_isCall r ?_)
    exact fun permit event hmem =>
      Event.not_call_of_isFiling (Sinks.isFiling_writeFiles _ _ _ event hmem)
  rw [turn_eq]
  refine ofKind_bind (fun r => ?_) r.filled
  exact (ofKind_bind hserved _).trans (ofKind_validate r)

end Relay

end StreamRelay
