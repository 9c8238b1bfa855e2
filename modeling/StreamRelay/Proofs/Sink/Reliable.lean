/-
  StreamRelay/Proofs/Sink/Reliable.lean
  =====================================
  **Pass-through outputs that never fail.**

  An outlet may accept a block in as many parts as it likes, and have any write made again: as long
  as each answer that it has in store accepts something, and each flush is done, every write and
  every flush succeeds, and what is left in store is of the same kind.
-/
import StreamRelay.Sink.Sinks

namespace StreamRelay

def WriteStep.getsOn : WriteStep → Bool
  | .acceptAll => true
  | .accept limit => decide (0 < limit)
  | .interrupted => true
  | .fail _ => false

/-- **An outlet that accepts every block sooner or later**, and passes it on. -/
structure Outlet.NeverFails (o : Outlet) : Prop where
  writes : ∀ step ∈ o.writes, step.getsOn
  flushes : ∀ step ∈ o.flushes, step = .done

instance (o : Outlet) : Decidable o.NeverFails :=
  decidable_of_iff ((∀ step ∈ o.writes, step.getsOn) ∧ ∀ step ∈ o.flushes, step = .done)
    ⟨fun h => ⟨h.1, h.2⟩, fun h => ⟨h.writes, h.flushes⟩⟩

/-- **An offer that gets on succeeds in the end**, and uses up answers from the front. -/
theorem offer_getsOn (refusal : Fault) (bytes : Bytes) {answers : List WriteStep}
    (h : ∀ answer ∈ answers, answer.getsOn) :
    (offer refusal bytes answers).result = .ok () ∧
      (offer refusal bytes answers).answers <:+ answers := by
  induction answers generalizing bytes with
  | nil => unfold offer; split <;> exact ⟨rfl, List.suffix_rfl⟩
  | cons answer answers ih =>
    rw [List.forall_mem_cons] at h
    obtain ⟨hanswer, hanswers⟩ := h
    unfold offer
    by_cases hempty : bytes.isEmpty
    · rw [if_pos hempty]
      exact ⟨rfl, List.suffix_rfl⟩
    rw [if_neg hempty]
    cases answer with
    | acceptAll => exact ⟨rfl, List.suffix_cons _ _⟩
    | accept limit =>
      have hpos : limit ≠ 0 := Nat.ne_of_gt (of_decide_eq_true hanswer)
      obtain ⟨hresult, hsuffix⟩ := ih (bytes.drop limit) hanswers
      simp only [if_neg hpos]
      exact ⟨hresult, hsuffix.trans (List.suffix_cons _ _)⟩
    | interrupted =>
      obtain ⟨hresult, hsuffix⟩ := ih bytes hanswers
      exact ⟨hresult, hsuffix.trans (List.suffix_cons _ _)⟩
    | fail fault => cases hanswer

namespace Outlet

variable {o : Outlet}

theorem NeverFails.write (h : o.NeverFails) (bytes : Bytes) :
    (o.write bytes).result = .ok () ∧ (o.write bytes).state.NeverFails := by
  obtain ⟨hresult, hsuffix⟩ := offer_getsOn .nothingAccepted bytes h.writes
  exact ⟨hresult, fun step hmem => h.writes step (hsuffix.subset hmem), h.flushes⟩

theorem NeverFails.flush (h : o.NeverFails) :
    o.flush.result = .ok () ∧ o.flush.state.NeverFails := by
  obtain ⟨writes, flushes⟩ := o
  obtain ⟨hwrites, hflushes⟩ := h
  cases flushes with
  | nil => exact ⟨rfl, hwrites, hflushes⟩
  | cons step flushes =>
    rw [List.forall_mem_cons] at hflushes
    obtain ⟨rfl, hflushes⟩ := hflushes
    exact ⟨rfl, hwrites, hflushes⟩

end Outlet

namespace Sinks

variable {s : Sinks}

def Reliable (s : Sinks) : Prop := ∀ outlet ∈ s.pass, outlet.NeverFails

theorem Reliable.enablePass (h : s.Reliable) (enabled : Bool) :
    (s.enablePass enabled).Reliable := by
  obtain ⟨pass, files, flushEach⟩ := s
  rintro outlet hmem
  cases enabled with
  | false => cases hmem
  | true =>
    cases pass with
    | none =>
      cases hmem
      exact ⟨fun _ hstep => absurd hstep List.not_mem_nil,
        fun _ hstep => absurd hstep List.not_mem_nil⟩
    | some pass => exact h outlet hmem

theorem Reliable.flushPass (h : s.Reliable) :
    s.flushPass.result = .ok () ∧ s.flushPass.state.Reliable := by
  unfold Sinks.flushPass
  rcases hpass : s.pass with _ | outlet
  · exact ⟨rfl, h⟩
  · obtain ⟨hresult, hnever⟩ := (h outlet hpass).flush
    dsimp only
    rw [hresult]
    refine ⟨rfl, ?_⟩
    rintro outlet' hmem
    cases hmem
    exact hnever

/-- **Every block gets through to an output that never fails.** -/
theorem Reliable.writePass (h : s.Reliable) (bytes : Bytes) :
    (s.writePass bytes).result = .ok () ∧ (s.writePass bytes).state.Reliable := by
  unfold Sinks.writePass
  rcases hpass : s.pass with _ | outlet
  · exact ⟨rfl, h⟩
  · dsimp only
    by_cases hempty : bytes.isEmpty
    · rw [if_pos hempty]
      exact ⟨rfl, h⟩
    · rw [if_neg hempty]
      obtain ⟨hresult, hnever⟩ := (h outlet hpass).write bytes
      have hwritten : Reliable { s with pass := some (outlet.write bytes).state } := by
        rintro outlet' hmem
        cases hmem
        exact hnever
      rw [hresult]
      dsimp only
      split
      · exact hwritten.flushPass
      · exact ⟨rfl, hwritten⟩

end Sinks

end StreamRelay
