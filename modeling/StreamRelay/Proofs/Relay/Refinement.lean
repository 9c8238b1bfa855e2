/-
  StreamRelay/Proofs/Relay/Refinement.lean
  ========================================
  **A relay does what a plain copy does.**

  Over a feed without faults, with outputs that take everything, a run releases the payload of all
  that the feed delivers up to the cap, and nothing shows of how reads, waits, grants and writes
  were split. It fails if that input is not properly framed, and then with the error of its
  decoding. Besides that it can only end because a number that it needs is too large to be kept.

  Main statement: `run_refines_copy`.
-/
import StreamRelay.Proofs.Relay.Copying

namespace StreamRelay

open Framing

/-- **The system has the memory that a run over a feed needs**: for its buffer, grown up to twice
    the input if everything is read first. -/
structure Options.Feasible (o : Options) (feed : Feed) (machine : Machine) : Prop where
  buffer : o.bufferSize < machine.memory
  growth : o.readAll → 2 * (o.cut feed.delivered).length < machine.memory

theorem Options.Feasible.affordable {o : Options} {feed : Feed} {machine : Machine}
    (h : o.Feasible feed machine) (waits : List WaitStep) :
    o.Affordable (.ofFeed feed waits) (.feed feed waits) machine := by
  refine ⟨h.buffer, fun hall n hwithin => ?_⟩
  refine Nat.lt_of_le_of_lt ?_ (h.growth hall)
  rw [Nat.pow_succ, ← Nat.mul_assoc, Nat.mul_comm _ 2]
  exact Nat.mul_le_mul_left 2 hwithin

/-- A file that was filled with any payload holds it. -/
theorem Disk.Filled.contents {start disk : Disk} {targets : List (Option Target)} {payload : Bytes}
    {name : String} (h : start.Filled targets payload disk) (hsome : payload ≠ [])
    (hname : some (.file name) ∈ targets) : disk.contents name = payload := by
  rw [Disk.contents, h.files name, if_pos ⟨hsome, hname⟩]
  rfl

namespace Relay

variable {options checked : Options} {warnings : List Event} {feed : Feed} {waits : List WaitStep}
  {sinks : Sinks} {disk : Disk} {machine : Machine}

/-- **A relay does what a plain copy does.** Over a feed without faults, with outputs that never
    fail, files that are regular or cannot be opened, and the memory that it needs, a run comes to
    an end. It ends for want of a number only if one was too large, and that could not be ruled out
    before. Otherwise its input is what the feed delivers up to the cap. If that has no payload, the
    run fails with the error of its decoding. If it has one, the run reports the two lengths and the
    signature of the payload; the pass-through output has accepted exactly the payload or its
    encoding; and each file that could be opened holds exactly the payload, while every other is as
    it was. -/
theorem run_refines_copy (hvalid : options.validate = .ok (checked, warnings))
    (hfaultless : feed.Faultless waits) (hfeasible : options.Feasible feed machine)
    (hreliable : sinks.Reliable) (hfill : disk.CanFill sinks.files) :
    ∃ outcome, run options (.feed feed waits) sinks disk machine = some outcome ∧
      (∀ overflow, outcome.result = .error (.overflow overflow) →
        options.Overruns feed machine.instants outcome.clock ∧
          ¬ options.InTime feed waits machine.instants) ∧
      ((∀ overflow, outcome.result ≠ .error (.overflow overflow)) →
        (∀ e, options.payload (options.cut feed.delivered) = .error e →
          outcome.result = .error (.framing e)) ∧
        ∀ payload, options.payload (options.cut feed.delivered) = .ok payload →
          (∃ elapsed, outcome.result = .ok ⟨(options.cut feed.delivered).length, payload.length,
            elapsed, if options.digest then some (Digest.md5 payload) else none⟩) ∧
          outcome.journal.passed =
            (if options.passThrough then
              if options.writeFraming then encodeChunks [payload] else payload
            else []) ∧
          disk.Filled (disk.targetsOf sinks.files) payload outcome.disk) := by
  have hunhindered : Unhindered (.ofFeed feed waits) options
      (.feed feed waits) sinks disk machine :=
    ⟨⟨checked, warnings, hvalid⟩, Supply.covers_ofFeed feed waits, hfaultless.supply,
      fun _ _ => trivial, hreliable, hfill, hfeasible.affordable waits⟩
  obtain ⟨outcome, hrun⟩ := hunhindered.exists_run
  refine ⟨outcome, hrun, fun overflow => overruns_of_run hrun, fun hkept => ?_⟩
  obtain ⟨hfails, hcopies⟩ := run_copies hunhindered hrun hkept
  refine ⟨hfails, fun payload hpayload => ?_⟩
  have hcopied := hcopies payload hpayload
  exact ⟨hcopied.result, hcopied.passed.trans (options.stream_settled payload), hcopied.filled⟩

/-- Options with everything on: the smallest buffer, a small ceiling, framing on both sides, the
    signature, waits, and rate lines. -/
def elaborate : Options :=
  { bufferSize := 66, throttle := 9, passThrough := true, readFraming := true
    writeFraming := true, digest := true, nonBlocking := true, rateEvery := some 5 }

/-- A frame with a marker byte and a high one in it, behind which anything may come. -/
def interruptedFrame : Feed :=
  ⟨[], [.bytes (frame [110, 255]), .interrupted, .wouldBlock, .passTime 7, .bytes [1, 2, 3]]⟩

/-- Two files that take their stores in parts, and an outlet that takes its writes so. -/
def partialSinks : Sinks :=
  ⟨some ⟨[.accept 4, .interrupted], [.done]⟩,
    [.ofPath "a" [.accept 1], .ofPath "b" [.interrupted, .accept 1]], false⟩

/-- A frame that is split, waited for and paced is copied whole, through sinks that take parts. -/
theorem run_refines_copy_of_paced_frame :
    ∃ outcome,
      run elaborate (.feed interruptedFrame [.ready true, .ready false]) partialSinks
          (Disk.ofFiles [("b", [7])]) ⟨1048576, [3, 8]⟩ = some outcome ∧
        outcome.journal.passed = encodeChunks [[110, 255]] ∧
        outcome.disk.contents "a" = [110, 255] ∧ outcome.disk.contents "b" = [110, 255] := by
  have hvalid : elaborate.validate = .ok (elaborate, []) := rfl
  have hfaultless : interruptedFrame.Faultless [.ready true, .ready false] :=
    ⟨by decide, by decide⟩
  have hreporting : ∀ every, elaborate.rateEvery = some every → every < Duration.horizon ∧
      ∀ now ∈ [3, 8], now + every < Duration.horizon := by
    rintro every heq
    cases heq
    exact ⟨by decide, by decide⟩
  have htime : elaborate.InTime interruptedFrame [.ready true, .ready false] [3, 8] :=
    ⟨by decide, fun _ => by decide +kernel, fun _ => by decide +kernel, hreporting,
      by decide +kernel⟩
  have hfeasible : elaborate.Feasible interruptedFrame ⟨1048576, [3, 8]⟩ :=
    ⟨by decide, by decide⟩
  have hreliable : partialSinks.Reliable := by
    rintro outlet heq
    cases heq
    decide
  have htargets : (Disk.ofFiles [("b", [7])]).targetsOf partialSinks.files =
      [some (.file "a"), some (.file "b")] := by decide +kernel
  have hfill : (Disk.ofFiles [("b", [7])]).CanFill partialSinks.files := by
    refine ⟨fun file hmem => ?_, by simp [htargets]⟩
    simp only [partialSinks, List.mem_cons, List.not_mem_nil, or_false] at hmem
    rcases hmem with rfl | rfl <;> exact ⟨rfl, by decide⟩
  obtain ⟨outcome, hrun, hover, hcopies⟩ :=
    run_refines_copy hvalid hfaultless hfeasible hreliable hfill
  have hkept (overflow : Overflow) : outcome.result ≠ .error (.overflow overflow) :=
    fun hresult => (hover overflow hresult).2 htime
  obtain ⟨_, hpassed, hfilled⟩ := (hcopies hkept).2 [110, 255] (by decide +kernel)
  have hsome : [110, 255] ≠ ([] : Bytes) := List.cons_ne_nil _ _
  exact ⟨outcome, hrun, hpassed, hfilled.contents hsome (by simp [htargets]),
    hfilled.contents hsome (by simp [htargets])⟩

/-- Valid options and faultless input are not enough: a run needs a buffer that can be allocated,
    and moments, products and deadlines that can be kept. -/
theorem exists_run_without_means :
    (∃ (options : Options) (feed : Feed), options.validate = .ok (options, []) ∧
        feed.Faultless [] ∧ options.payload (options.cut feed.delivered) = .ok [120] ∧
        (run options (.feed feed []) ⟨none, [], false⟩ (Disk.ofFiles [])
          ⟨1048576, []⟩).map (·.result) = some (.error (.allocation (2 ^ 64 - 1)))) ∧
      ∀ overflow ∈ [Overflow.span, .moment, .product],
        ∃ (options : Options) (feed : Feed), options.validate = .ok (options, []) ∧
          feed.Faultless [] ∧ options.payload (options.cut feed.delivered) = .ok [120] ∧
          (run options (.feed feed []) ⟨none, [], false⟩ (Disk.ofFiles [])
            ⟨1048576, []⟩).map (·.result) = some (.error (.overflow overflow)) := by
  refine ⟨⟨{ bufferSize := 2 ^ 64 - 1, passThrough := true }, ⟨[], [.bytes [120]]⟩,
    by decide, ⟨by decide, by decide⟩, by decide +kernel, by decide +kernel⟩, ?_⟩
  simp only [List.mem_cons, List.not_mem_nil, or_false, forall_eq_or_imp, forall_eq]
  refine ⟨⟨{ passThrough := true }, ⟨[], [.passTime Duration.limit, .bytes [120]]⟩, ?_⟩,
    ⟨{ throttle := 1, passThrough := true }, ⟨[], [.passTime Duration.horizon, .bytes [120]]⟩, ?_⟩,
    ⟨{ throttle := 2 ^ 63, passThrough := true }, ⟨[], [.passTime (2 ^ 65), .bytes [120]]⟩, ?_⟩⟩
  all_goals exact ⟨by decide, ⟨by decide, by decide⟩, by decide +kernel, by decide +kernel⟩

end Relay

end StreamRelay
