/-
  StreamRelay/Proofs/Sink/Passing.lean
  ====================================
  **What the pass-through output accepts of a block.**

  A write that is answered in parts accepts the block from its front on, and all of it if it
  succeeds: whatever the outlet answers, what it accepted is a prefix of what was offered
  (`writePass_prefix`, `writePass_all`). Nothing else that sinks do puts bytes on the pass-through
  output.
-/
import StreamRelay.Sink.Sinks

namespace StreamRelay

/-! ### What events passed on -/

def passedBy (events : List Event) : Bytes := events.flatMap Event.passed

@[simp] theorem passedBy_nil : passedBy [] = [] := rfl

@[simp] theorem passedBy_cons (event : Event) (events : List Event) :
    passedBy (event :: events) = event.passed ++ passedBy events := rfl

@[simp] theorem passedBy_append (first second : List Event) :
    passedBy (first ++ second) = passedBy first ++ passedBy second := by
  simp [passedBy]

@[simp] theorem Journal.passed_append (j : Journal) (events : List Event) :
    Journal.passed (j ++ events) = Journal.passed j ++ passedBy events := by
  simp [Journal.passed, passedBy]

/-- One journal goes on from another, by events that put `bytes` on the pass-through output. -/
def Journal.Extends (before after : Journal) (bytes : Bytes) : Prop :=
  ∃ events : List Event, after = before ++ events ∧ passedBy events = bytes

namespace Journal.Extends

variable {before middle after : Journal} {first second bytes : Bytes}

theorem refl (j : Journal) : j.Extends j [] := ⟨[], by simp, rfl⟩

theorem log (j : Journal) (events : List Event) : j.Extends (j ++ events) (passedBy events) :=
  ⟨events, rfl, rfl⟩

theorem log_quiet (j : Journal) {events : List Event} (h : passedBy events = []) :
    j.Extends (j ++ events) [] :=
  ⟨events, rfl, h⟩

theorem trans (h : before.Extends middle first) (h' : middle.Extends after second) :
    before.Extends after (first ++ second) := by
  obtain ⟨events, rfl, rfl⟩ := h
  obtain ⟨more, rfl, rfl⟩ := h'
  refine ⟨events ++ more, ?_, passedBy_append events more⟩
  apply Array.ext'
  simp

theorem quiet (h : before.Extends middle bytes) (h' : middle.Extends after []) :
    before.Extends after bytes := by
  have := h.trans h'
  rwa [List.append_nil] at this

theorem passed_eq (h : before.Extends after bytes) : after.passed = before.passed ++ bytes := by
  obtain ⟨events, rfl, rfl⟩ := h
  exact Journal.passed_append before events

theorem mem (h : before.Extends after bytes) {event : Event} (hevent : event ∈ before) :
    event ∈ after := by
  obtain ⟨events, rfl, _⟩ := h
  rw [Array.mem_def] at hevent ⊢
  simp [hevent]

end Journal.Extends

/-! ### Kinds of events -/

/-- An event of opening a relay: a warning, or a write to the pass-through output. -/
def Event.isOpening : Event → Bool
  | .wrote _ | .flushed | .warned _ => true
  | _ => false

/-- An event of an output file: it is opened or cannot be, or it is a standard output and emits what
    it is given. -/
def Event.isFiling : Event → Bool
  | .opened _ | .warned _ | .emitted _ _ => true
  | _ => false

theorem passedBy_of_isFiling {events : List Event} (h : ∀ event ∈ events, event.isFiling) :
    passedBy events = [] := by
  unfold passedBy
  rw [List.flatMap_eq_nil_iff]
  intro event hmem
  have hfiling := h event hmem
  cases event <;> simp [Event.isFiling] at hfiling <;> rfl

/-! ### One outlet -/

theorem passedBy_wrote (parts : List Bytes) : passedBy (parts.map .wrote) = parts.flatten := by
  induction parts with
  | nil => rfl
  | cons part parts ih => rw [List.map_cons, passedBy_cons, ih]; rfl

/-- **A block is accepted from its front on**, and all of it if the offer succeeds. -/
theorem accepted_offer (refusal : Fault) (bytes : Bytes) (answers : List WriteStep) :
    (offer refusal bytes answers).accepted <+: bytes ∧
      ((offer refusal bytes answers).result = .ok () →
        (offer refusal bytes answers).accepted = bytes) := by
  induction answers generalizing bytes with
  | nil => unfold offer; split <;> simp_all [Offer.accepted]
  | cons answer answers ih =>
    unfold offer
    by_cases hempty : bytes.isEmpty
    · rw [if_pos hempty, List.isEmpty_iff.1 hempty]
      exact ⟨List.nil_prefix, fun _ => rfl⟩
    rw [if_neg hempty]
    rcases answer with _ | limit | _ | fault
    · simp [Offer.accepted]
    · by_cases hzero : limit = 0
      · simp [hzero, Offer.accepted]
      · -- part of the block is accepted, and the rest is offered again
        simp only [if_neg hzero, Offer.accepted, List.flatten_cons]
        obtain ⟨hpart, hok⟩ := ih (bytes.drop limit)
        constructor
        · have := List.prefix_append_right_inj (bytes.take limit) |>.2 hpart
          rwa [List.take_append_drop] at this
        · intro hresult
          have := congrArg (bytes.take limit ++ ·) (hok hresult)
          rwa [List.take_append_drop] at this
    · exact ih bytes
    · exact ⟨List.nil_prefix, nofun⟩

theorem Outlet.passedBy_write (o : Outlet) (bytes : Bytes) :
    passedBy (o.write bytes).events <+: bytes ∧
      ((o.write bytes).result = .ok () → passedBy (o.write bytes).events = bytes) := by
  unfold Outlet.write
  rw [passedBy_wrote]
  exact accepted_offer .nothingAccepted bytes o.writes

theorem Outlet.passedBy_flush (o : Outlet) : passedBy o.flush.events = [] := by
  unfold Outlet.flush
  split <;> rfl

/-! ### All sinks -/

namespace Sinks

theorem passedBy_flushPass (s : Sinks) : passedBy s.flushPass.events = [] := by
  unfold flushPass
  split
  · rfl
  · exact Outlet.passedBy_flush _

theorem flushPass_state (s : Sinks) :
    ∃ pass, s.flushPass.state = { s with pass } ∧ pass.isSome = s.pass.isSome := by
  unfold flushPass
  split
  · exact ⟨s.pass, rfl, rfl⟩
  · next outlet hpass => exact ⟨some outlet.flush.state, rfl, by rw [hpass]; rfl⟩

theorem writePass_state (s : Sinks) (bytes : Bytes) :
    ∃ pass, (s.writePass bytes).state = { s with pass } ∧ pass.isSome = s.pass.isSome := by
  unfold writePass
  split
  · exact ⟨s.pass, rfl, rfl⟩
  · next outlet hpass =>
    by_cases hempty : bytes.isEmpty
    · rw [if_pos hempty]
      exact ⟨s.pass, rfl, rfl⟩
    · rw [if_neg hempty]
      dsimp only
      split
      · exact ⟨some (outlet.write bytes).state, rfl, by rw [hpass]; rfl⟩
      · split
        · obtain ⟨pass, hstate, hsome⟩ :=
            flushPass_state { s with pass := some (outlet.write bytes).state }
          exact ⟨pass, hstate, by rw [hsome, hpass]; rfl⟩
        · exact ⟨some (outlet.write bytes).state, rfl, by rw [hpass]; rfl⟩

theorem files_writePass (s : Sinks) (bytes : Bytes) :
    (s.writePass bytes).state.files = s.files := by
  obtain ⟨pass, hstate, _⟩ := s.writePass_state bytes
  rw [hstate]

/-- **What the pass-through output accepts of a block is a prefix of it.** -/
theorem writePass_prefix (s : Sinks) (bytes : Bytes) :
    passedBy (s.writePass bytes).events <+: bytes := by
  unfold writePass
  split
  · exact List.nil_prefix
  · next outlet _ =>
    by_cases hempty : bytes.isEmpty
    · rw [if_pos hempty]
      exact List.nil_prefix
    · rw [if_neg hempty]
      dsimp only
      split
      · exact (outlet.passedBy_write bytes).1
      · split
        · rw [passedBy_append, passedBy_flushPass, List.append_nil]
          exact (outlet.passedBy_write bytes).1
        · exact (outlet.passedBy_write bytes).1

/-- **A write that succeeds has passed on the whole block**, if there is a pass-through output. -/
theorem writePass_all {s : Sinks} {bytes : Bytes} (hpass : s.pass.isSome)
    (h : (s.writePass bytes).result = .ok ()) : passedBy (s.writePass bytes).events = bytes := by
  obtain ⟨outlet, houtlet⟩ := Option.isSome_iff_exists.1 hpass
  unfold writePass at h ⊢
  rw [houtlet] at h ⊢
  by_cases hempty : bytes.isEmpty
  · simp only [if_pos hempty]
    exact (List.isEmpty_iff.1 hempty).symm
  · simp only [if_neg hempty] at h ⊢
    rcases hresult : (outlet.write bytes).result with fault | _
    · rw [hresult] at h
      cases h
    · have hall := (outlet.passedBy_write bytes).2 hresult
      rw [hresult] at h
      dsimp only
      split
      · rw [passedBy_append, passedBy_flushPass, List.append_nil, hall]
      · exact hall

theorem writePass_none {s : Sinks} (hpass : s.pass = none) (bytes : Bytes) :
    s.writePass bytes = .quiet s := by
  unfold writePass
  rw [hpass]

end Sinks

/-! ### What the pass-through output leaves in the journal -/

theorem isOpening_flushPass (s : Sinks) : ∀ event ∈ s.flushPass.events, event.isOpening := by
  unfold Sinks.flushPass
  split
  · simp [Effect.quiet]
  · unfold Outlet.flush
    split <;> simp [Event.isOpening]

/-- A write to the pass-through output reads nothing, opens no file and takes no pause. -/
theorem isOpening_writePass (s : Sinks) (bytes : Bytes) :
    ∀ event ∈ (s.writePass bytes).events, event.isOpening := by
  unfold Sinks.writePass
  split
  · simp [Effect.quiet]
  · next outlet _ =>
    have hwrite : ∀ event ∈ (outlet.write bytes).events, event.isOpening := by
      simp [Outlet.write, Event.isOpening]
    split
    · simp [Effect.quiet]
    · dsimp only
      split
      · exact hwrite
      · split
        · rw [List.forall_mem_append]
          exact ⟨hwrite, isOpening_flushPass _⟩
        · exact hwrite

/-! ### Files pass nothing on -/

theorem Disk.Target.isFiling_events (target : Disk.Target) (bytes : Bytes) :
    ∀ event ∈ target.events bytes, event.isFiling := by
  unfold Disk.Target.events
  split <;> simp [Event.isFiling]

namespace Spool

theorem isFiling_store (s : Spool) (disk : Disk) (refusal : Fault) (bytes : Bytes) :
    ∀ event ∈ (s.store disk refusal bytes).events, event.isFiling := by
  unfold store
  dsimp only
  split
  · exact Disk.Target.isFiling_events _ _
  · simp

theorem isFiling_flush (s : Spool) (disk : Disk) :
    ∀ event ∈ (s.flush disk).events, event.isFiling :=
  isFiling_store s disk .nothingStored s.held

theorem isFiling_place (s : Spool) (disk : Disk) (bytes : Bytes) :
    ∀ event ∈ (s.place disk bytes).events, event.isFiling := by
  unfold place
  split
  · exact isFiling_store s disk .nothingAccepted bytes
  · simp

theorem isFiling_write (s : Spool) (disk : Disk) (bytes : Bytes) :
    ∀ event ∈ (s.write disk bytes).events, event.isFiling := by
  unfold write
  split
  · dsimp only
    split
    · rw [List.forall_mem_append]
      exact ⟨isFiling_flush s disk, isFiling_place _ _ _⟩
    · exact isFiling_flush s disk
  · exact isFiling_place s disk bytes

end Spool

namespace FileSink

theorem isFiling_openIfNeeded (s : FileSink) (disk : Disk) :
    ∀ event ∈ (s.openIfNeeded disk).events, event.isFiling := by
  unfold openIfNeeded
  split
  · split <;> simp [Event.isFiling]
  · simp [Effect.quiet]

theorem isFiling_writeOpen (s : FileSink) (disk : Disk) (bytes : Bytes) (flush : Bool) :
    ∀ event ∈ (s.writeOpen disk bytes flush).events, event.isFiling := by
  unfold writeOpen
  split
  · dsimp only
    split
    · exact Spool.isFiling_write _ _ _
    · split
      · rw [List.forall_mem_append]
        exact ⟨Spool.isFiling_write _ _ _, Spool.isFiling_flush _ _⟩
      · exact Spool.isFiling_write _ _ _
  · simp [Effect.quiet]

theorem isFiling_write (s : FileSink) (disk : Disk) (bytes : Bytes) (flush : Bool) :
    ∀ event ∈ (s.write disk bytes flush).events, event.isFiling := by
  unfold write
  rw [List.forall_mem_append]
  exact ⟨isFiling_openIfNeeded s disk, isFiling_writeOpen _ _ _ _⟩

theorem isFiling_close (s : FileSink) (disk : Disk) :
    ∀ event ∈ (s.close disk).events, event.isFiling := by
  unfold close
  split
  · dsimp only
    split <;> exact Spool.isFiling_flush _ _
  · simp [Effect.quiet]

theorem isFiling_release (s : FileSink) (disk : Disk) :
    ∀ event ∈ (s.release disk).2, event.isFiling := by
  unfold release
  split
  · exact Spool.isFiling_flush _ _
  · simp

end FileSink

namespace Sinks

theorem isFiling_eachFile {act : FileSink → Disk → Effect SinkError (FileSink × Disk)}
    (h : ∀ file disk, ∀ event ∈ (act file disk).events, event.isFiling) (files : List FileSink)
    (disk : Disk) :
    ∀ event ∈ (eachFile act files disk).events, event.isFiling := by
  induction files generalizing disk with
  | nil => simp [eachFile, Effect.quiet]
  | cons file files ih =>
    rw [eachFile]
    dsimp only
    split
    · exact h file disk
    · rw [List.forall_mem_append]
      exact ⟨h file disk, ih _⟩

theorem isFiling_writeFiles (s : Sinks) (disk : Disk) (bytes : Bytes) :
    ∀ event ∈ (s.writeFiles disk bytes).events, event.isFiling :=
  isFiling_eachFile (fun file disk => file.isFiling_write disk bytes s.flushEach) s.files disk

theorem isFiling_release (s : Sinks) (disk : Disk) :
    ∀ event ∈ (s.release disk).2, event.isFiling := by
  unfold release
  induction s.files generalizing disk with
  | nil => simp [releaseFiles]
  | cons file files ih =>
    rw [releaseFiles, List.forall_mem_append]
    exact ⟨file.isFiling_release disk, ih _⟩

theorem passedBy_writeFiles (s : Sinks) (disk : Disk) (bytes : Bytes) :
    passedBy (s.writeFiles disk bytes).events = [] :=
  passedBy_of_isFiling (s.isFiling_writeFiles disk bytes)

theorem passedBy_release (s : Sinks) (disk : Disk) : passedBy (s.release disk).2 = [] :=
  passedBy_of_isFiling (s.isFiling_release disk)

theorem passedBy_close (s : Sinks) (disk : Disk) : passedBy (s.close disk).events = [] := by
  have hfiles := passedBy_of_isFiling (isFiling_eachFile FileSink.isFiling_close s.files disk)
  unfold close
  dsimp only
  split
  · exact hfiles
  · rw [passedBy_append, hfiles, passedBy_flushPass]
    rfl

end Sinks

end StreamRelay
