/-
  StreamRelay/Proofs/Relay/Copying.lean
  =====================================
  **A run that only its input stands in the way of.**

  Take a source whose reads and waits never fail, outputs that take everything, and memory for the
  buffer. Then a run comes to what its input says, unless it ends for want of a number. Neither how
  reads, waits, grants and writes were split, nor the size of the buffer and its growth, leave a
  trace: the sinks come to the payload of all that the source brings up to the cap, or the run fails
  with the error of decoding that.

  The invariant (`Copies`) puts together what is known between two turns: that the accounts are in
  order (`Accounted`), that every sink has what was released (`Delivers`), and that the buffer is
  one of those that fit in memory. A turn keeps it, or fails with a framing error or for want of a
  number (`Copies.turn`), and that is all there is to how a run ends.

  Main statement: `run_copies`.
-/
import StreamRelay.Proofs.Relay.Fanout
import StreamRelay.Proofs.Relay.Timing

namespace StreamRelay

open Framing

/-- **The system has the memory that a run over a source needs**: for its buffer, and if everything
    is read first for each doubling of the buffer until it holds that. -/
structure Options.Affordable (o : Options) (F : Supply) (source : Source) (machine : Machine) :
    Prop where
  buffer : o.bufferSize < machine.memory
  growth : o.readAll → ∀ n, o.bufferSize * 2 ^ n ≤ (o.cut (F.rest source)).length →
    o.bufferSize * 2 ^ (n + 1) < machine.memory

namespace Relay

variable {F : Supply} {o : Options} {r r' r₁ r₂ : Relay} {halt : Halt} {start : Disk}
  {files : List FileSink} {machine : Machine} {whole input released : Bytes}

/-! ### The invariant -/

/-- **A relay that nothing but its input stands in the way of.** -/
structure Copies (F : Supply) (o : Options) (start : Disk) (files : List FileSink)
    (machine : Machine) (whole input released : Bytes) (r : Relay) : Prop where
  accounted : Accounted F o machine.instants whole input released r
  delivers : Delivers start files released r
  memory : r.memory = machine.memory
  capacity : ∃ n, r.buffer.capacity = o.bufferSize * 2 ^ n
  silent : r.journal.ofKind Event.isEmission = []

/-! ### Reading -/

theorem Ledger.length_le (h : Ledger o input released r) : r.buffer.length ≤ input.length := by
  have hvouched := h.vouched.length_le
  have hparts := congrArg List.length r.ready_append_behind
  rw [List.length_append, ReadBuffer.length_view] at hparts
  rw [List.length_append] at hvouched
  omega

theorem filled_capacity (hfilled : r.filled = .ok r₁) :
    r₁.buffer.capacity = r.buffer.capacity ∨
      r₁.buffer.capacity = r.buffer.capacity + max r.buffer.capacity 1 := by
  have hfilling := r.filling
  rw [hfilled] at hfilling
  cases hfilling with
  | idle _ => exact Or.inl rfl
  | @received answer buffer journal _ _ _ _ hcapacity _ _ =>
    change buffer.capacity = _ ∨ buffer.capacity = _
    rw [hcapacity, room]
    split
    · exact Or.inr rfl
    · exact Or.inl rfl

theorem silent_of_vouched (h : r.journal.ofKind Event.isEmission = [])
    (hfilled : r.filled = .ok r₁) (hvalidate : r₁.validate = .ok r₂) :
    r₂.journal.ofKind Event.isEmission = [] := by
  have htakes := takesIn_vouch hfilled
  rw [hvalidate] at htakes
  obtain ⟨events, hjournal, hintake⟩ := htakes.journal
  change r₂.journal = _ at hjournal
  rw [hjournal, Journal.ofKind_append_quiet, h]
  intro event hmem
  have hkind := hintake event hmem
  cases event <;> simp [Event.isIntake] at hkind <;> rfl

/-- **A relay that finds its input at fault has found an error of the whole.** -/
theorem Ledger.refuse (h : Ledger o input released r) (hbusy : r.isDone = false)
    (hfilled : r.filled = .ok r₁) (hvalidate : r₁.validate = .error halt) {rest : Bytes}
    (hwhole : whole = input ++ r.arrival ++ rest) (hrest : r₁.ended → rest = []) :
    ∃ e relay, halt = ⟨.framing e, relay⟩ ∧ o.payload whole = .error e := by
  have harrived := h.arrive hbusy hfilled
  obtain ⟨e, decoder, rfl, hdecoder, hfails⟩ := validate_error harrived.unseen hvalidate
  refine ⟨e, { r₁ with decoder }, rfl, ?_⟩
  rw [Options.payload, ← harrived.decoder, if_pos hdecoder, hwhole]
  exact hfails rest hrest

/-! ### Whole turns -/

/-- How a turn of such a relay goes. It goes on to the next, or ends with the framing error of the
    input, or for want of a number. -/
inductive Copying (F : Supply) (o : Options) (start : Disk) (files : List FileSink)
    (machine : Machine) (whole input released : Bytes) (r : Relay) : Except Halt Relay → Prop where
  | goes {block : Bytes} {r' : Relay} (hspends : Spends F o r r')
      (hcopies : Copies F o start files machine whole (input ++ r.arrival) (released ++ block) r') :
      Copying F o start files machine whole input released r (.ok r')
  | refused {e : FramingError} {relay : Relay}
      (hpayload : o.payload (o.cut whole) = .error e) :
      Copying F o start files machine whole input released r (.error ⟨.framing e, relay⟩)
  | overflowed {e : Overflow} {relay : Relay} :
      Copying F o start files machine whole input released r (.error ⟨.overflow e, relay⟩)

section Running

variable (hfaultless : F.Faultless) (hfill : start.CanFill files)
  (hsees : ∀ disk : Disk, (∀ name, some (.file name) ∉ start.targetsOf files →
    disk.find? name = start.find? name) → F.sees disk)
  (hgrowth : o.readAll → ∀ n, o.bufferSize * 2 ^ n ≤ (o.cut whole).length →
    o.bufferSize * 2 ^ (n + 1) < machine.memory)

include hsees in
/-- No output file is one that the source depends on, so the source is as it was. -/
theorem Delivers.sees (h : Delivers start files released r) : F.sees r.disk :=
  hsees r.disk fun _ hname => h.find?_eq hname

include hfaultless hsees hgrowth in
/-- **Nothing fails when the buffer is filled**, except for want of a number. -/
theorem Copies.fills (h : Copies F o start files machine whole input released r) :
    (∃ r₁, r.filled = .ok r₁) ∨ ∃ e relay, r.filled = .error ⟨.overflow e, relay⟩ := by
  have hdisk := h.delivers.sees hsees
  have hledger := h.accounted.ledger
  have hcovers := h.accounted.intake.covers
  rcases hfilled : r.filled with halt | r₁
  · have hfilling := r.filling
    rw [hfilled] at hfilling
    cases hfilling with
    | @refused bytes _ hfull hall hgrow =>
      -- a full buffer holds nothing but input, so it is one of the doublings that can be made
      obtain ⟨rest, hcut, _⟩ := h.accounted.intake.cut_eq fun hcap => (hledger.capped hcap).1
      obtain ⟨n, hcapacity⟩ := h.capacity
      have hlength := hledger.length_le
      have hsize : minBufferSize = 66 := rfl
      have hpaced := h.accounted.paced.capacity
      rw [ReadBuffer.isFull, decide_eq_true_iff] at hfull
      have hwithin : o.bufferSize * 2 ^ n ≤ (o.cut whole).length := by
        rw [hcut, List.length_append]
        omega
      have hfits := hgrowth (hledger.options ▸ hall) n hwithin
      rw [Nat.pow_succ, ← Nat.mul_assoc, ← hcapacity] at hfits
      rw [ReadBuffer.grow?, h.memory, if_pos (by omega)] at hgrow
      cases hgrow
    | waitFailed _ hwait _ => exact absurd hwait (hfaultless.waits _ _ hcovers)
    | overflowed e _ _ _ _ _ => exact Or.inr ⟨e, _, rfl⟩
    | failed hended hattempt hreading _ =>
      have hasked := asked_pos hledger hended
      exact absurd hreading (hfaultless.reads _ _ _ _ _ hcovers hdisk hasked hattempt)
  · exact Or.inl ⟨r₁, rfl⟩

theorem Copies.grown (h : Copies F o start files machine whole input released r)
    (hfilled : r.filled = .ok r₁) : ∃ n, r₁.buffer.capacity = o.bufferSize * 2 ^ n := by
  obtain ⟨n, hn⟩ := h.capacity
  have hsize : minBufferSize = 66 := rfl
  have hpos := h.accounted.paced.capacity
  rcases filled_capacity hfilled with hsame | hgrown
  · exact ⟨n, hsame.trans hn⟩
  · refine ⟨n + 1, ?_⟩
    rw [Nat.pow_succ, ← Nat.mul_assoc, ← hn]
    omega

include hfill hsees in
/-- **A turn that has released goes on to the next**, unless a rate line has a deadline that cannot
    be told. -/
theorem Copies.proceed {block : Bytes} {r₃ : Relay}
    (h : Copies F o start files machine whole input released r) (hbusy : r.isDone = false)
    (hfilled : r.filled = .ok r₁) (hvalidate : r₁.validate = .ok r₂)
    (hdelivers : Delivers start files released r₂) (hserve : r₂.releaseReady = .ok r₃)
    (hserved : Ledger o (input ++ r.arrival) (released ++ block) r₃)
    (hdelivers' : Delivers start files (released ++ block) r₃) :
    Copying F o start files machine whole input released r r.turn := by
  have hdisk := h.delivers.sees hsees
  have hledger := h.accounted.ledger
  have harrived := hledger.arrive hbusy hfilled
  obtain ⟨⟨_, _, _, _, _, _, hr₁⟩, _⟩ := filled_frame hledger.validated_le hfilled
  obtain ⟨_, _, _, hr₂, hcapacity⟩ := validate_frame hvalidate
  have hserves := serves (harrived.vouch hvalidate).validated_le hserve
  have hsilent := (hdelivers.silent hfill hserve).trans
    (silent_of_vouched h.silent hfilled hvalidate)
  have hpoised := (h.accounted.vouch hdisk hbusy hfilled hvalidate).1
  have hturn : r.turn = r₃.tick := by
    rw [turn_eq, hfilled, Except.bind, hvalidate, Except.bind, hserve]
    rfl
  rcases (hpoised.reporting.serve hserves).tick with
    ⟨left, progress, journal, htick, hreporting⟩ | ⟨⟨e, relay, htick⟩, _⟩
  · -- the rate line adds to progress, which no sink has to do with
    rw [htick] at hturn
    have hdelivers'' : Delivers start files (released ++ block)
        { r₃ with instants := left, progress, journal } :=
      hdelivers'.congr rfl rfl rfl rfl List.prefix_rfl
    have hspends := hledger.turn_budget h.accounted.paced h.accounted.intake.covers hdisk hbusy
      hturn (hdelivers''.sees hsees)
    have hintake := h.accounted.intake.turn hledger hdisk hturn
    rw [hturn]
    refine .goes hspends ⟨⟨hserved.tick htick, hintake, hspends.paced, hreporting⟩, hdelivers'',
      ?_, ?_, ?_⟩
    · refine hserves.memory.trans (Eq.trans ?_ h.memory)
      rw [hr₂, hr₁]
    · obtain ⟨n, hn⟩ := h.grown hfilled
      refine ⟨n, hserves.capacity.trans (Eq.trans ?_ hn)⟩
      rw [hr₂]
      exact hcapacity
    · have hticked := ofKind_tick Event.outer_isEmission r₃
      rw [htick] at hticked
      exact hticked.trans hsilent
  · rw [hturn, htick]
    exact .overflowed

include hfaultless hfill hsees hgrowth in
/-- **A turn goes on to the next**, or ends with the framing error of the input or for want of a
    number. -/
theorem Copies.turn (h : Copies F o start files machine whole input released r)
    (hbusy : r.isDone = false) :
    Copying F o start files machine whole input released r r.turn := by
  have hdisk := h.delivers.sees hsees
  have hledger := h.accounted.ledger
  rcases h.fills hfaultless hsees hgrowth with ⟨r₁, hfilled⟩ | ⟨e, relay, hfilled⟩
  · have harrived := hledger.arrive hbusy hfilled
    have hintake := h.accounted.intake.arrive hledger hdisk hfilled
    rcases hvalidate : r₁.validate with halt | r₂
    · -- what was read is refused, and so is the whole that it is the front of
      obtain ⟨rest, hcut, hrest⟩ := hintake.cut_eq fun hcap => (harrived.capped hcap).1
      obtain ⟨e, relay, rfl, hpayload⟩ := hledger.refuse hbusy hfilled hvalidate hcut hrest
      rw [turn_eq, hfilled, Except.bind, hvalidate]
      exact .refused hpayload
    · obtain ⟨⟨_, _, _, _, _, _, hr₁⟩, hready⟩ := filled_frame hledger.validated_le hfilled
      obtain ⟨_, _, _, fresh, hr₂, _, _, hready₂, _⟩ :=
        validate_ok harrived.unseen harrived.validated_le hvalidate
      have hdelivers : Delivers start files released r₂ :=
        h.delivers.congr (by rw [hr₂, hr₁]) (by rw [hr₂, hr₁]) (by rw [hr₂, hr₁])
          (by rw [hr₂, hr₁]) (hready.trans ⟨fresh, hready₂.symm⟩)
      have hturn : r.turn = r₂.releaseReady.bind tick := by
        rw [turn_eq, hfilled, Except.bind, hvalidate]
        rfl
      have hvouched := harrived.vouch hvalidate
      rcases hdelivers.serve hfill hvouched with ⟨block, r₃, hserve, hserved, hdelivers'⟩ |
        ⟨e, relay, hserve⟩
      · exact h.proceed hfill hsees hbusy hfilled hvalidate hdelivers hserve hserved hdelivers'
      · rw [hturn, hserve]
        exact .overflowed
  · rw [turn_eq, hfilled]
    exact .overflowed

end Running

/-! ### Whole runs -/

variable {options checked : Options} {warnings : List Event} {source : Source} {sinks : Sinks}
  {disk : Disk} {first last : Relay}

/-- A relay whose options are valid and whose buffer can be allocated can be made, unless its first
    rate line has no moment. -/
theorem overflow_of_prepare (hvalid : options.validate = .ok (checked, warnings))
    (hbuffer : options.bufferSize < machine.memory) {e : RelayError} {warned : List Event}
    (hprepare : prepare options source sinks disk machine = .error (e, warned)) :
    ∃ overflow, e = .overflow overflow := by
  obtain ⟨rfl, _⟩ := Options.validate_ok hvalid
  have hallocated : ReadBuffer.ofCapacity? machine.memory options.settled.bufferSize =
      .ok ⟨#[], 0, options.bufferSize, Nat.le_refl _, Nat.zero_le _⟩ := if_pos hbuffer
  unfold prepare at hprepare
  rw [hvalid] at hprepare
  dsimp only at hprepare
  rw [hallocated] at hprepare
  dsimp only at hprepare
  split at hprepare
  · cases hprepare
    exact ⟨_, rfl⟩
  · cases hprepare

theorem exists_begin (hreliable : sinks.Reliable)
    (hprepare : prepare options source sinks disk machine = .ok r) :
    ∃ first, r.begin = .ok first := by
  obtain ⟨o, warnings, buffer, progress, _, _, _, rfl⟩ := prepare_ok hprepare
  have hpassing :=
    passing_begin (ofOptions o source sinks disk machine buffer progress warnings)
  generalize (ofOptions o source sinks disk machine buffer progress warnings).begin = result
    at hpassing ⊢
  cases hpassing with
  | refused hwrite _ _ _ =>
    have hok := ((hreliable.enablePass o.passThrough).writePass
      (ofOptions o source sinks disk machine buffer progress warnings).prelude).1
    change ((sinks.enablePass o.passThrough).writePass _).result = _ at hwrite
    rw [hok] at hwrite
    cases hwrite
  | passed _ _ => exact ⟨_, rfl⟩

/-- **Nothing but its input stands in the way of a run**: the options are valid, no read or wait
    fails, the pass-through output never does, the output files take every store and are none that
    the source reads, and the system affords it. -/
structure Unhindered (F : Supply) (options : Options) (source : Source) (sinks : Sinks)
    (disk : Disk) (machine : Machine) : Prop where
  valid : ∃ checked warnings, options.validate = .ok (checked, warnings)
  covers : F.covers source
  faultless : F.Faultless
  sees : ∀ now : Disk, (∀ name, some (.file name) ∉ disk.targetsOf sinks.files →
    now.find? name = disk.find? name) → F.sees now
  reliable : sinks.Reliable
  fill : disk.CanFill sinks.files
  afford : options.Affordable F source machine

theorem Unhindered.copies (h : Unhindered F options source sinks disk machine)
    (hstarts : Starts options source sinks disk machine first) :
    Copies F options.settled disk sinks.files machine (F.rest source) [] [] first := by
  have hsilent := hstarts.silent
  have haccounted := hstarts.accounted h.covers
  have hdelivers := hstarts.delivers h.reliable h.fill
  obtain ⟨warnings, buffer, progress, bytes, journal, hbuffer, _, _, hfirst⟩ := hstarts.eq
  have hcapacity := (view_ofCapacity? hbuffer).2.1
  refine ⟨haccounted, hdelivers, ?_, ⟨0, ?_⟩, hsilent⟩
  · rw [hfirst]
    rfl
  · rw [hfirst, Nat.pow_zero, Nat.mul_one]
    exact hcapacity

theorem Unhindered.turn (h : Unhindered F options source sinks disk machine)
    (hcopies : Copies F options.settled disk sinks.files machine (F.rest source) input released r)
    (hbusy : r.isDone = false) :
    Copying F options.settled disk sinks.files machine (F.rest source) input released r r.turn :=
  hcopies.turn h.faultless h.fill h.sees h.afford.growth hbusy

/-- **The run comes to an end**: each turn lowers its budget. -/
theorem Unhindered.exists_run (h : Unhindered F options source sinks disk machine) :
    ∃ outcome, run options source sinks disk machine = some outcome := by
  apply exists_run_of (P := fun r => ∃ input released,
    Copies F options.settled disk sinks.files machine (F.rest source) input released r)
  · rintro r r' ⟨input, released, hcopies⟩ hbusy hok
    have hcopying := h.turn hcopies hbusy
    rw [hok] at hcopying
    cases hcopying with
    | goes hspends hnext => exact ⟨⟨_, _, hnext⟩, hspends.budget⟩
  · exact fun first hstarts => ⟨[], [], h.copies hstarts⟩

/-- **The invariant holds wherever the run comes to**, and it has its time before it, if the time
    that it may take can be kept. -/
theorem Unhindered.reached (h : Unhindered F options source sinks disk machine)
    (hstarts : Starts options source sinks disk machine first)
    (hreaches : Reaches first input last) :
    (∃ released, Copies F options.settled disk sinks.files machine (F.rest source) input released
      last) ∧
      (options.Punctual F source machine.instants → Prompt F options.settled last) := by
  have hsees : F.sees disk := h.sees disk fun _ _ => rfl
  refine hreaches.preserves (P := fun input r => (∃ released, Copies F options.settled disk
    sinks.files machine (F.rest source) input released r) ∧
      (options.Punctual F source machine.instants → Prompt F options.settled r)) ?_
    ⟨⟨[], h.copies hstarts⟩, hstarts.prompt h.covers hsees⟩
  rintro input r r' ⟨⟨released, hcopies⟩, hprompt⟩ hbusy hok
  have hcopying := h.turn hcopies hbusy
  rw [hok] at hcopying
  cases hcopying with
  | goes hspends hnext =>
    exact ⟨⟨_, hnext⟩, fun hpunctual => (hprompt hpunctual).turn hspends⟩

/-- What the run comes to if its input has a payload: the totals, the stream, and the files. -/
structure Copied (F : Supply) (options : Options) (source : Source) (sinks : Sinks) (disk : Disk)
    (payload : Bytes) (outcome : Outcome) : Prop where
  result : ∃ elapsed, outcome.result = .ok ⟨(options.cut (F.rest source)).length, payload.length,
    elapsed, if options.digest then some (Digest.md5 payload) else none⟩
  passed : outcome.journal.passed = options.settled.stream payload
  silent : outcome.journal.ofKind Event.isEmission = []
  filled : disk.Filled (disk.targetsOf sinks.files) payload outcome.disk

/-- **A run that only its input stands in the way of comes to what its input says**, unless it ends
    for want of a number. If what the source brings up to the cap has no payload, the run fails with
    the error of decoding it. Otherwise it reports the two lengths and the signature of the payload;
    the pass-through output has the stream of the payload, with no other bytes between; and each
    regular file that was opened holds the payload. -/
theorem run_copies (h : Unhindered F options source sinks disk machine) {outcome : Outcome}
    (hrun : run options source sinks disk machine = some outcome)
    (hkept : ∀ overflow, outcome.result ≠ .error (.overflow overflow)) :
    (∀ e, options.payload (options.cut (F.rest source)) = .error e →
      outcome.result = .error (.framing e)) ∧
    ∀ payload, options.payload (options.cut (F.rest source)) = .ok payload →
      Copied F options source sinks disk payload outcome := by
  cases course hrun with
  | unprepared hprepare hresult =>
    obtain ⟨_, _, hvalid⟩ := h.valid
    obtain ⟨overflow, rfl⟩ := overflow_of_prepare hvalid h.afford.buffer hprepare
    exact absurd (congrArg Outcome.result hresult) (hkept overflow)
  | unopened hprepare hbegin _ =>
    obtain ⟨first, hok⟩ := exists_begin h.reliable hprepare
    rw [hbegin] at hok
    cases hok
  | halted hstarts hreaches hbusy hhalts _ hresult =>
    obtain ⟨⟨released, hcopies⟩, _⟩ := h.reached hstarts hreaches
    have hcopying := h.turn hcopies hbusy
    rw [hhalts] at hcopying
    cases hcopying with
    | refused hpayload =>
      -- the front that was refused decides on all of the input
      change options.payload (options.cut (F.rest source)) = _ at hpayload
      rw [hpayload, hresult]
      constructor
      · intro e' heq
        cases heq
        rfl
      · intro payload heq
        cases heq
    | @overflowed e relay => exact absurd (congrArg Outcome.result hresult) (hkept e)
  | closed hstarts hreaches hdone hresult =>
    obtain ⟨⟨released, hcopies⟩, _⟩ := h.reached hstarts hreaches
    have hledger := hcopies.accounted.ledger
    obtain ⟨hok, hpassed, hsilent, hfilled⟩ := hcopies.delivers.finish hledger hdone
    have hpayload := hledger.payload_eq hdone
    rw [hcopies.accounted.intake.complete (Bool.and_eq_true_iff.1 hdone).1] at hok hpayload
    change options.payload (options.cut (F.rest source)) = .ok released at hpayload
    rw [hpayload, hresult]
    constructor
    · intro e heq
      cases heq
    · intro payload heq
      cases heq
      exact ⟨⟨_, hok⟩, hpassed, hsilent.trans hcopies.silent, hfilled⟩

end Relay

end StreamRelay
