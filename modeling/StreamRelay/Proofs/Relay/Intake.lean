/-
  StreamRelay/Proofs/Relay/Intake.lean
  ====================================
  **What a relay reads of its source.**

  However a source splits its bytes and whatever comes between them, the turns of a relay read them
  in order, and when they come to the end they have read all that it brings, up to the cap on the
  input (`Intake.arrive`). Over a feed this holds of every relay that is reached
  (`Reaches.intake`).
-/
import StreamRelay.Proofs.Relay.Run
import StreamRelay.Proofs.Source.Supply

namespace StreamRelay

/-- The part of a run of bytes that the cap on the input lets through. -/
def Options.cut (o : Options) (bytes : Bytes) : Bytes :=
  if o.stopAfter = 0 then bytes else bytes.take o.stopAfter

namespace Relay

variable {F : Supply} {o : Options} {r r' r₁ : Relay} {whole input released : Bytes}

/-- A relay whose source brings `whole` before its end, and that has read `input` of it. -/
structure Intake (F : Supply) (o : Options) (whole input : Bytes) (r : Relay) : Prop where
  covers : F.covers r.source
  left : r.ended = false → input ++ F.rest r.source = whole
  complete : r.ended → input = o.cut whole

theorem length_lt_room (r : Relay) : r.buffer.length < r.room := by
  have hle := r.buffer.length_le_capacity
  unfold room
  split
  · omega
  · next hfull =>
    rw [ReadBuffer.isFull, decide_eq_true_iff] at hfull
    omega

theorem asked_pos (h : Ledger o input released r) (hended : r.ended = false) : 0 < r.asked := by
  have hspace : 0 < r.room - r.buffer.length := Nat.sub_pos_of_lt r.length_lt_room
  have hread := h.bytesRead
  obtain rfl := h.options
  unfold asked
  split
  · exact hspace
  · next hcap =>
    have := (h.capped (Nat.pos_of_ne_zero hcap)).2 hended
    exact Nat.lt_min.2 ⟨by omega, hspace⟩

theorem cut_append (hcap : 0 < o.stopAfter) (hlength : input.length = o.stopAfter) (rest : Bytes) :
    o.cut (input ++ rest) = input := by
  rw [Options.cut, if_neg (Nat.ne_of_gt hcap), ← hlength, List.take_left]

theorem cut_of_le (h : 0 < o.stopAfter → input.length ≤ o.stopAfter) : o.cut input = input := by
  unfold Options.cut
  split
  · rfl
  · next hcap => exact List.take_of_length_le (h (Nat.pos_of_ne_zero hcap))

theorem cut_append_of_le (h : 0 < o.stopAfter → input.length ≤ o.stopAfter) (rest : Bytes) :
    ∃ more, o.cut (input ++ rest) = input ++ more := by
  unfold Options.cut
  split
  · exact ⟨rest, rfl⟩
  · next hcap =>
    refine ⟨rest.take (o.stopAfter - input.length), ?_⟩
    rw [List.take_append, List.take_of_length_le (h (Nat.pos_of_ne_zero hcap))]

/-- **The last answer brings the rest of the whole, up to the cap**: it is the end of the input, or
    reaches the cap. -/
theorem Ledger.cut_eq_of_last (h : Ledger o input released r) (hended : r.ended = false)
    {reading : Reading}
    (hreading : ∀ fault, reading ≠ .failed fault) (hbounded : reading.given.length ≤ r.asked)
    (hlast : r.endsWith reading) (hend : reading = .endOfInput → input = whole)
    (hmore : reading ≠ .endOfInput → ∃ rest, input ++ reading.given ++ rest = whole) :
    input ++ reading.given = o.cut whole := by
  by_cases heof : reading = .endOfInput
  · rw [← hend heof, cut_of_le fun hcap => (h.capped hcap).1, heof]
    exact List.append_nil input
  · obtain ⟨rest, rfl⟩ := hmore heof
    obtain ⟨hcap, hreached⟩ := (endsWith_cases hended hreading hlast).resolve_left heof
    have hlimit :=
      (capped_receive hcap
        (h.bytesRead ▸ h.options ▸ (h.capped (h.options ▸ hcap)).2 hended) hbounded
      hreading).1
    rw [h.bytesRead, ← List.length_append] at hlimit hreached
    rw [h.options] at hcap hlimit hreached
    exact (cut_append hcap (Nat.le_antisymm hlimit hreached) rest).symm

/-- **What arrives is the next of what the source brings**, and the end of the input is that of the
    source or the cap. -/
theorem Intake.arrive (h : Intake F o whole input r) (hledger : Ledger o input released r)
    (hsees : F.sees r.disk) (hfilled : r.filled = .ok r₁) :
    Intake F o whole (input ++ r.arrival) r₁ := by
  have hfilling := r.filling
  rw [hfilled] at hfilling
  cases hfilling with
  | idle _ =>
    rw [arrival_eq hfilled (List.append_nil _).symm, List.append_nil]
    exact h
  | @received answer buffer journal hended hattempt hreading hview _ _ _ =>
    rw [arrival_eq hfilled hview]
    have hbounded := hattempt.bounded.length_given_le
    have hyields := F.attempt h.covers hsees (asked_pos hledger hended) hattempt
    have hwhole (hne : answer.reading ≠ .endOfInput) :
        input ++ answer.reading.given ++ F.rest answer.source = whole := by
      rw [List.append_assoc, hyields.next hne]
      exact h.left hended
    refine ⟨hyields.covers, fun hgoing => ?_, fun hlast => ?_⟩
    · apply hwhole
      intro hend
      change r.endsWith answer.reading = false at hgoing
      rw [hend] at hgoing
      cases hgoing
    · refine hledger.cut_eq_of_last hended hreading hbounded hlast (fun hend => ?_) fun hne =>
        ⟨_, hwhole hne⟩
      have hall := h.left hended
      rwa [hyields.last hend, List.append_nil] at hall

/-- What was read is the front of what the cap lets through of the whole, and all of it at the end
    of the input. -/
theorem Intake.cut_eq (h : Intake F o whole input r)
    (hcapped : 0 < o.stopAfter → input.length ≤ o.stopAfter) :
    ∃ rest, o.cut whole = input ++ rest ∧ (r.ended → rest = []) := by
  cases hended : r.ended with
  | true =>
    refine ⟨[], ?_, fun _ => rfl⟩
    rw [List.append_nil]
    exact (h.complete hended).symm
  | false =>
    obtain ⟨more, hmore⟩ := cut_append_of_le hcapped (F.rest r.source)
    rw [h.left hended] at hmore
    exact ⟨more, hmore, fun hgoing => Bool.noConfusion hgoing⟩

/-- **No attempt brings more than the cap lets through of the whole.** -/
theorem Intake.length_attempt_le (h : Intake F o whole input r)
    (hledger : Ledger o input released r)
    (hsees : F.sees r.disk) (hended : r.ended = false) {answer : ReadResult Source}
    (hattempt : r.source.Attempt r.disk r.asked answer) :
    r.bytesRead + answer.reading.given.length ≤ (o.cut whole).length := by
  have hyields := F.attempt h.covers hsees (asked_pos hledger hended) hattempt
  have hcapped : 0 < o.stopAfter → (input ++ answer.reading.given).length ≤ o.stopAfter := by
    intro hcap
    have hasked := asked_le_of_capped (hledger.options.symm ▸ hcap)
    have hbounded := hattempt.bounded.length_given_le
    have hunder := (hledger.capped hcap).1
    rw [hledger.bytesRead, hledger.options] at hasked
    rw [List.length_append]
    omega
  have hwhole : ∃ rest, input ++ answer.reading.given ++ rest = whole := by
    by_cases hend : answer.reading = .endOfInput
    · exact ⟨F.rest r.source, by rw [hend, ← h.left hended]; simp [Reading.given]⟩
    · refine ⟨F.rest answer.source, ?_⟩
      rw [List.append_assoc, hyields.next hend]
      exact h.left hended
  obtain ⟨rest, hwhole⟩ := hwhole
  obtain ⟨more, hmore⟩ := cut_append_of_le hcapped rest
  rw [hwhole] at hmore
  rw [hledger.bytesRead, hmore, ← List.length_append]
  exact (List.prefix_append _ more).length_le

theorem Intake.congr (h : Intake F o whole input r) (hsource : r'.source = r.source)
    (hended : r'.ended = r.ended) : Intake F o whole input r' := by
  constructor
  · rw [hsource]
    exact h.covers
  · rw [hsource, hended]
    exact h.left
  · rw [hended]
    exact h.complete

theorem Intake.turn (h : Intake F o whole input r) (hledger : Ledger o input released r)
    (hsees : F.sees r.disk) (hturn : r.turn = .ok r') :
    Intake F o whole (input ++ r.arrival) r' := by
  obtain ⟨r₁, hfilled, hsource, hended, _⟩ := turn_frame hturn
  exact (h.arrive hledger hsees hfilled).congr hsource hended

theorem Starts.source_eq {options : Options} {source : Source} {sinks : Sinks} {disk : Disk}
    {machine : Machine}
    (h : Starts options source sinks disk machine r) : r.source = source ∧ r.ended = false := by
  obtain ⟨warnings, buffer, progress, bytes, journal, _, _, _, rfl⟩ := h.eq
  exact ⟨rfl, rfl⟩

variable {options : Options} {source : Source} {feed : Feed} {waits : List WaitStep}
  {sinks : Sinks} {disk : Disk} {machine : Machine} {first last : Relay}

theorem Starts.intake (h : Starts options source sinks disk machine first)
    (hcovers : F.covers source) : Intake F options.settled (F.rest source) [] first := by
  obtain ⟨rfl, hended⟩ := h.source_eq
  refine ⟨hcovers, fun _ => rfl, fun hend => ?_⟩
  rw [hended] at hend
  cases hend

/-- **The intake of every relay that is reached over a feed.** -/
theorem Reaches.intake (hreaches : Reaches first input last)
    (hstarts : Starts options (.feed feed waits) sinks disk machine first) :
    Intake (.ofFeed feed waits) options.settled feed.delivered input last := by
  refine (hreaches.preserves (P := fun input r =>
    (∃ released, Ledger options.settled input released r) ∧
      Intake (.ofFeed feed waits) options.settled feed.delivered input r) ?_
    ⟨⟨[], hstarts.ledger⟩, hstarts.intake (Supply.covers_ofFeed feed waits)⟩).2
  rintro input r r' ⟨⟨released, hledger⟩, hintake⟩ hbusy hturn
  obtain ⟨block, hledger'⟩ := hledger.turn hbusy hturn
  exact ⟨⟨released ++ block, hledger'⟩, hintake.turn hledger trivial hturn⟩

/-- **A run over a feed that gets to closing has read all that is delivered, up to the cap.** -/
theorem runInput_feed (hstarts : Starts options (.feed feed waits) sinks disk machine first)
    (hreaches : Reaches first input last) (hdone : last.isDone) :
    input = options.cut feed.delivered := by
  have hintake := hreaches.intake hstarts
  exact hintake.complete (Bool.and_eq_true_iff.1 hdone).1

end Relay

end StreamRelay
