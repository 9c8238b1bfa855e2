/-
  StreamRelay/Proofs/Relay/Truncation.lean
  ========================================
  **A framed relay that fails or is cut short is never taken for a complete one.**

  Until a relay is closed its pass-through output has accepted part of the start escape and of a
  stuffed payload. That is a proper part of a frame, whatever the payload, so it lacks its start or
  its end. The finish escape is only written once the input is at its end and its payload is
  released.
-/
import StreamRelay.Proofs.Relay.Intake

namespace StreamRelay

open Framing

/-- The start escape and a stuffed payload are no frame, whatever part of them is there. -/
theorem Options.decodeChunks_wire {o : Options} {passed payload : Bytes} (hframing : o.writeFraming)
    (h : passed <+: o.wire payload) :
    decodeChunks [passed] = .error .missingStart ∨ decodeChunks [passed] = .error .missingEnd := by
  have hpart : passed <+: Tag.start.sequence ++ stuff payload := by
    unfold wire at h
    rw [if_pos hframing] at h
    split at h
    · exact h
    · rw [List.prefix_nil.1 h]
      exact List.nil_prefix
  have hframe : [passed].flatten <+: frame payload := by
    rw [List.flatten_singleton]
    exact hpart.trans (List.prefix_append _ _)
  refine decodeChunks_truncated hframe fun hwhole => ?_
  have hlength := hpart.length_le
  have hfinish : 0 < Tag.finish.sequence.length := by decide
  rw [List.flatten_singleton] at hwhole
  rw [hwhole, frame, List.length_append] at hlength
  omega

/-- A part of a frame that decodes is the frame. -/
theorem decodeChunks_part {passed payload q : Bytes} (h : passed <+: frame payload)
    (hdecode : decodeChunks [passed] = .ok q) : q = payload := by
  have hframe := decodeChunks_eq_ok.1 hdecode
  rw [List.flatten_singleton] at hframe
  have hrun := Reader.run_eq_finished_iff.2 (hframe.trans h)
  rw [Reader.run_frame] at hrun
  injection hrun with hsame
  exact hsame.symm

namespace Relay

variable {options : Options} {source : Source} {sinks : Sinks} {disk : Disk} {machine : Machine}

/-- **Whatever a relay has passed on between two turns lacks its start or its end.** -/
theorem Reaches.truncated {first mid : Relay} {input : Bytes}
    (hstarts : Starts options source sinks disk machine first)
    (hreaches : Reaches first input mid) (hframing : options.settled.writeFraming) :
    decodeChunks [mid.journal.passed] = .error .missingStart ∨
    decodeChunks [mid.journal.passed] = .error .missingEnd := by
  obtain ⟨released, hledger⟩ := hreaches.ledger hstarts.ledger
  have hpassed : mid.journal.passed <+: options.settled.wire released := by
    refine ⟨[], ?_⟩
    rw [List.append_nil, hledger.passed]
  exact Options.decodeChunks_wire hframing hpassed

/-- **What a framed relay has passed on decodes only if the relay was complete.** If it does, the
    input was at its end or the cap was reached, nothing failed but a sink, and it decodes to the
    whole payload; over a feed, that is the payload of all that the feed delivers up to the cap. A
    run that fails otherwise leaves a stream that lacks its start or its end. -/
theorem passed_decodes_only_if_complete {outcome : Outcome}
    (hrun : run options source sinks disk machine = some outcome) (hframing : options.writeFraming)
    (hpass : options.passThrough) :
    (∀ q, decodeChunks [outcome.journal.passed] = .ok q →
      AtEnd options (runInput options source sinks disk machine) outcome.journal ∧
        options.payload (runInput options source sinks disk machine) = .ok q ∧
        (∀ e, outcome.result = .error e → ∃ s, e = .sink s) ∧
        ∀ feed waits, source = .feed feed waits →
          runInput options source sinks disk machine = options.cut feed.delivered) ∧
      ∀ e, outcome.result = .error e → (∀ s, e ≠ .sink s) →
        decodeChunks [outcome.journal.passed] = .error .missingStart ∨
          decodeChunks [outcome.journal.passed] = .error .missingEnd := by
  have hsettled : options.settled = options := by
    have hwrite : (options.writeFraming && options.passThrough) = options.writeFraming := by
      rw [hpass, Bool.and_true]
    rw [Options.settled, hwrite]
  cases run_ending hrun with
  | halted hresult hpassed =>
    -- part of a wire form without its finish escape never decodes
    rw [hsettled] at hpassed
    have htruncated := Options.decodeChunks_wire hframing hpassed
    refine ⟨fun q hdecode => ?_, fun _ _ _ => htruncated⟩
    rw [hdecode] at htruncated
    rcases htruncated with h | h <;> cases h
  | @closed first last released hstarts hreaches hdone hledger hresult =>
    -- of a whole frame only the whole decodes
    have hpayload := hledger.payload_eq hdone
    obtain ⟨hatEnd, hpassed, hclosed⟩ := hledger.finish hdone
    have hsink (e : RelayError) (he : outcome.result = .error e) : ∃ s, e = .sink s := by
      rw [hresult] at he
      rcases hclosed with ⟨report, hok, _⟩ | ⟨s, hfailed⟩
      · rw [hok] at he
        cases he
      · rw [hfailed] at he
        cases he
        exact ⟨s, rfl⟩
    have hstream : options.stream released = frame released := by
      rw [Options.stream, if_pos hpass, if_pos hframing]
    rw [hsettled] at hpayload hatEnd hpassed
    rw [hstream, ← hresult] at hpassed
    rw [← hresult] at hatEnd
    refine ⟨fun q hdecode => ⟨hatEnd, ?_, hsink, ?_⟩, fun e he hnot => ?_⟩
    · rw [decodeChunks_part hpassed hdecode]
      exact hpayload
    · rintro feed waits rfl
      exact runInput_feed hstarts hreaches hdone
    · obtain ⟨s, hs⟩ := hsink e he
      exact absurd hs (hnot s)

/-- The first byte of a marker through an output that takes four bytes and is interrupted then: the
    escape that is cut there is whole in the end, and so is the payload. -/
theorem passed_decodes_of_one_byte :
    ∃ outcome,
      run { passThrough := true, writeFraming := true } (.feed ⟨[], [.bytes [110]]⟩ [])
          ⟨some ⟨[.accept 4, .interrupted], []⟩, [], false⟩ (Disk.ofFiles []) ⟨1048576, []⟩ =
        some outcome ∧
      decodeChunks [outcome.journal.passed] = .ok [110] ∧
      Options.payload { passThrough := true, writeFraming := true }
        (runInput { passThrough := true, writeFraming := true } (.feed ⟨[], [.bytes [110]]⟩ [])
          ⟨some ⟨[.accept 4, .interrupted], []⟩, [], false⟩ (Disk.ofFiles []) ⟨1048576, []⟩) =
        .ok [110] := by
  have hpassed :
      (run { passThrough := true, writeFraming := true } (.feed ⟨[], [.bytes [110]]⟩ [])
        ⟨some ⟨[.accept 4, .interrupted], []⟩, [], false⟩ (Disk.ofFiles []) ⟨1048576, []⟩).map
        (fun o => o.journal.passed) = some (frame [110]) := by
    decide +kernel
  obtain ⟨outcome, hrun, hframe⟩ := Option.map_eq_some_iff.1 hpassed
  have hdecode : decodeChunks [outcome.journal.passed] = .ok [110] := by
    rw [hframe]
    decide +kernel
  obtain ⟨hcomplete, _⟩ := passed_decodes_only_if_complete hrun rfl rfl
  obtain ⟨_, hpayload, _⟩ := hcomplete [110] hdecode
  exact ⟨outcome, hrun, hdecode, hpayload⟩

end Relay

end StreamRelay
