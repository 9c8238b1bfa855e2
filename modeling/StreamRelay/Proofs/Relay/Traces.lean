/-
  StreamRelay/Proofs/Relay/Traces.lean
  ====================================
  **Which part of a turn leaves which events.**

  The pass-through output leaves events of opening (`Event.isOpening`), a file those of filing
  (`Event.isFiling`), and a relay accounts for what it grants and releases (`Event.isServing`). So
  events of a kind that is neither of opening nor of serving come from the reading of a turn or from
  the files, and where those leave none a journal tells of no more than before.
-/
import StreamRelay.Proofs.Relay.AllOrNothing

namespace StreamRelay

/-- An event of releasing what may be released, or a line of progress. -/
def Event.isServing : Event → Bool
  | .granted _ _ _ | .stalled _ | .paused _ | .released _ | .progressed _ => true
  | _ => false

/-- A kind of events that are neither of opening nor of serving. -/
structure Event.Outer (kind : Event → Bool) : Prop where
  opening : ∀ event, event.isOpening → kind event = false
  serving : ∀ event, event.isServing → kind event = false

namespace Journal

variable {kind : Event → Bool} {events : List Event}

def ofKind (kind : Event → Bool) (j : Journal) : List Event := j.toList.filter kind

theorem ofKind_append (j : Journal) (events : List Event) :
    ofKind kind (j ++ events) = j.ofKind kind ++ events.filter kind := by
  simp [ofKind]

theorem ofKind_append_quiet (j : Journal) (h : ∀ event ∈ events, kind event = false) :
    ofKind kind (j ++ events) = j.ofKind kind := by
  have hnone : events.filter kind = [] :=
    List.filter_eq_nil_iff.2 fun event hmem => by simp [h event hmem]
  rw [ofKind_append, hnone, List.append_nil]

theorem ofKind_eq_nil {j : Journal} : j.ofKind kind = [] ↔ ∀ event ∈ j, kind event = false := by
  simp [ofKind]

end Journal

theorem Sinks.close_events (s : Sinks) (disk : Disk) {kind : Event → Bool}
    (hkind : Event.Outer kind)
    (hfiles : ∀ event ∈ (eachFile FileSink.close s.files disk).events, kind event = false) :
    ∀ event ∈ (s.close disk).events, kind event = false := by
  unfold Sinks.close
  dsimp only
  split
  · exact hfiles
  · intro event hmem
    rcases List.mem_append.1 hmem with hfile | hflush
    · exact hfiles event hfile
    · exact hkind.opening event (isOpening_flushPass _ event hflush)

namespace Relay

variable {r : Relay} {kind : Event → Bool} {permit : Nat}

theorem ofKind_log (r : Relay) {events : List Event} (h : ∀ event ∈ events, kind event = false) :
    (r.log events).journal.ofKind kind = r.journal.ofKind kind :=
  Journal.ofKind_append_quiet _ h

theorem isServing_progressing (text : String) : ∀ event ∈ progressing text, event.isServing := by
  unfold progressing
  split <;> simp [Event.isServing]

theorem isServing_pausing (span : Duration) : ∀ event ∈ pausing span, event.isServing := by
  unfold pausing
  split <;> simp [Event.isServing]

theorem standing_map (result : Except Halt Relay) (n : Nat) :
    standing ((result.map fun r => (r, n)).map Prod.fst) = standing result := by
  cases result <;> rfl

section Parts

variable (hkind : Event.Outer kind)
include hkind

theorem ofKind_serving (r : Relay) {events : List Event} (h : ∀ event ∈ events, event.isServing) :
    (r.log events).journal.ofKind kind = r.journal.ofKind kind :=
  ofKind_log r fun event hmem => hkind.serving event (h event hmem)

theorem ofKind_passOnly (r : Relay) (bytes : Bytes) :
    (standing (r.passOnly bytes)).journal.ofKind kind = r.journal.ofKind kind := by
  have hquiet : Journal.ofKind kind (r.journal ++ (r.sinks.writePass bytes).events) =
      r.journal.ofKind kind :=
    Journal.ofKind_append_quiet _ fun event hmem =>
      hkind.opening event (isOpening_writePass _ _ event hmem)
  unfold passOnly
  dsimp only
  split <;> exact hquiet

theorem ofKind_drop (r : Relay) (n : Nat) :
    (standing (r.drop n)).journal.ofKind kind = r.journal.ofKind kind := by
  unfold drop
  split
  · rfl
  · dsimp only
    rw [logProgress_eq]
    split <;> exact ofKind_serving hkind _ (isServing_progressing _)

/-- **A release leaves no events of the kind but those of its files.** -/
theorem ofKind_release (hfiles : ∀ event ∈ (r.storing permit).events, kind event = false) :
    (standing ((r.release permit).map Prod.fst)).journal.ofKind kind = r.journal.ofKind kind := by
  have hpassed : Journal.ofKind kind (r.journal ++ (r.passing permit).events) =
      r.journal.ofKind kind :=
    Journal.ofKind_append_quiet _ fun event hmem =>
      hkind.opening event (isOpening_writePass _ _ event hmem)
  have hstored : Journal.ofKind kind
      (r.journal ++ (r.passing permit).events ++ (r.storing permit).events) =
      r.journal.ofKind kind := by
    rw [Journal.ofKind_append_quiet _ hfiles, hpassed]
  unfold release
  simp only [ReadBuffer.viewTo_eq]
  split
  · exact hpassed
  · split
    · exact hstored
    · rw [standing_map]
      refine (ofKind_drop hkind _ _).trans (Eq.trans ?_ hstored)
      exact ofKind_serving hkind _ (by simp [Event.isServing])

theorem ofKind_pause (r : Relay) (span : Duration) :
    (r.pause span).journal.ofKind kind = r.journal.ofKind kind := by
  rw [pause_eq]
  exact ofKind_serving hkind _ (isServing_pausing span)

theorem ofKind_releaseReady (r : Relay)
    (hfiles : ∀ permit, ∀ event ∈ (r.storing permit).events, kind event = false) :
    (standing r.releaseReady).journal.ofKind kind = r.journal.ofKind kind := by
  unfold releaseReady
  split
  · split
    · rfl
    · exact ofKind_release hkind (hfiles _)
  · next limiter _ =>
    dsimp only
    split
    · rfl
    · next grant _ =>
      split
      · exact ofKind_pause hkind r _
      · have hreleased : (standing ((((r.pause grant.pause).log
            [.granted grant.permit r.releasable limiter.released]).release grant.permit).map
            Prod.fst)).journal.ofKind kind =
              r.journal.ofKind kind := by
          rw [ofKind_release hkind, ofKind_serving hkind _ (by simp [Event.isServing]),
            ofKind_pause hkind]
          rw [pause_eq]
          exact hfiles grant.permit
        split
        · next halt hrelease =>
          rw [hrelease] at hreleased
          exact hreleased
        · next r' n hrelease =>
          rw [hrelease] at hreleased
          split
          · exact hreleased
          split
          · refine (ofKind_pause hkind _ _).trans (Eq.trans ?_ hreleased)
            exact ofKind_serving hkind _ (by simp [Event.isServing])
          · exact hreleased

theorem ofKind_tick (r : Relay) :
    (standing r.tick).journal.ofKind kind = r.journal.ofKind kind := by
  unfold tick
  split
  · rfl
  · dsimp only
    rw [logProgress_eq]
    split <;> exact ofKind_serving hkind _ (isServing_progressing _)

/-- **Closing leaves no events of the kind but those of its files.** -/
theorem ofKind_finish
    (hfiles : ∀ event ∈ (Sinks.eachFile FileSink.close r.sinks.files r.disk).events,
      kind event = false) :
    (standing r.finish).journal.ofKind kind = r.journal.ofKind kind := by
  have hlogged : (r.log (progressing r.progress.finish.1)).finished.journal.ofKind kind =
      r.journal.ofKind kind :=
    ofKind_serving hkind r (isServing_progressing _)
  have hpassed := ofKind_passOnly hkind (r.log (progressing r.progress.finish.1)).finished r.finale
  rw [hlogged] at hpassed
  have hpassing := passing_passOnly (r.log (progressing r.progress.finish.1)).finished r.finale
  rw [finish_eq]
  generalize (r.log (progressing r.progress.finish.1)).finished.passOnly r.finale =
    result at hpassing hpassed
  cases hpassing with
  | refused _ _ _ _ => exact hpassed
  | @passed journal _ _ =>
    have hclose : ∀ event ∈ ((r.sinks.writePass r.finale).state.close r.disk).events,
        kind event = false := by
      apply Sinks.close_events _ _ hkind
      rwa [Sinks.files_writePass]
    change journal.ofKind kind = _ at hpassed
    have hquiet := Journal.ofKind_append_quiet journal hclose
    rw [hpassed] at hquiet
    unfold Except.bind closeSinks
    dsimp only
    split <;> exact hquiet

end Parts

theorem ofKind_bind {f : Relay → Except Halt Relay}
    (h : ∀ r, (standing (f r)).journal.ofKind kind = r.journal.ofKind kind)
    (result : Except Halt Relay) :
    (standing (result.bind f)).journal.ofKind kind = (standing result).journal.ofKind kind := by
  cases result with
  | error halt => rfl
  | ok r => exact h r

theorem ofKind_validate (r : Relay) :
    (standing r.validate).journal.ofKind kind = r.journal.ofKind kind := by
  unfold validate
  split
  · rfl
  · dsimp only
    split <;> rfl

theorem ofKind_outcome (result : Except Halt Relay)
    (hfiles : ∀ event ∈ ((standing result).sinks.release (standing result).disk).2,
      kind event = false) :
    (outcome result).journal.ofKind kind = (standing result).journal.ofKind kind := by
  cases result with
  | ok r => exact Journal.ofKind_append_quiet _ hfiles
  | error halt => exact Journal.ofKind_append_quiet _ hfiles

end Relay

end StreamRelay
