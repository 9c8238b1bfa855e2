/-
  StreamRelay/Proofs/Relay/Containment.lean
  =========================================
  **Whatever fails, outputs hold payload in its order and nothing else.**

  Sinks may fail at any byte, and so may reads, waits and the framing of the input. The files then
  hold part of what was released, or of the block that was just being released; the pass-through
  output has accepted the wire form of at least that, since it gets every block before the files do;
  and all of it is payload that the input contains. The invariant between two turns is the ledger
  together with `Sinks.Stored`; what a turn that fails leaves is `Within`.

  Main statement: `run_outputs_prefixed`.
-/
import StreamRelay.Proofs.Relay.Run
import StreamRelay.Proofs.Sink.Prefixes
import StreamRelay.Proofs.Sink.Storing

namespace StreamRelay

open Framing

/-! ### The payload in an input -/

/-- **The payload that an input contains**: the input itself without framing, and otherwise what a
    reader of it has confirmed. -/
def Options.contained (o : Options) (input : Bytes) : Bytes :=
  if o.readFraming then (Reader.start.run input).confirmed else input

theorem Options.contained_of_payload {o : Options} {input payload : Bytes}
    (h : o.payload input = .ok payload) :
    o.contained input = payload := by
  unfold Options.payload at h
  unfold contained
  split at h
  · next hframing =>
    rw [if_pos hframing]
    rw [Relay.decodeChunks_singleton] at h
    rcases hr : Reader.start.run input with seen | ⟨p, k⟩ | p | ⟨p, e⟩ <;> rw [hr] at h <;> cases h
    rfl
  · next hplain =>
    rw [if_neg hplain]
    exact Except.ok.inj h

/-- **An input with a bad escape contains the payload before that escape**, whatever follows. -/
theorem Options.contained_of_bad_tag {o : Options} (hframing : o.readFraming) (payload rest : Bytes)
    {b : UInt8} (hmid : b ≠ Tag.mid.byte) (hfinish : b ≠ Tag.finish.byte) :
    o.contained (Tag.start.sequence ++ stuff payload ++ marker ++ [b] ++ rest) = payload := by
  rw [contained, if_pos hframing, Reader.run_append, Reader.run_bad_tag payload hmid hfinish,
    Reader.run_refused]
  rfl

theorem Options.contained_append (o : Options) (input given : Bytes) :
    o.contained input <+: o.contained (input ++ given) := by
  unfold contained
  split
  · rw [Reader.run_append]
    exact Reader.confirmed_run _ given
  · exact List.prefix_append _ _

theorem Options.wire_prefix (o : Options) {part whole : Bytes} (h : part <+: whole) :
    o.wire part <+: o.wire whole := by
  unfold wire
  split
  · split
    · rw [List.prefix_append_right_inj]
      exact stuff_prefix h
    · exact h
  · exact List.prefix_rfl

theorem Options.wire_prefix_stream (o : Options) (payload : Bytes) :
    o.wire payload <+: o.stream payload := by
  unfold wire stream
  split
  · split
    · exact List.prefix_append _ _
    · exact List.prefix_rfl
  · exact List.prefix_rfl

theorem Options.wire_settled (o : Options) (payload : Bytes) :
    o.settled.wire payload = o.wire payload := by
  unfold wire settled
  cases o.passThrough <;> cases o.writeFraming <;> rfl

/-- **Outputs that hold part of a payload.** The pass-through output has accepted part of what the
    payload comes to. Each file that was opened holds part of the payload, and the pass-through
    output has accepted all that this part comes to. No other file has changed. -/
structure Prefixed (o : Options) (start : Disk) (payload : Bytes) (journal : Journal)
    (disk : Disk) : Prop where
  passed : journal.passed <+:
    if o.passThrough then if o.writeFraming then encodeChunks [payload] else payload else []
  contents : ∀ name, start.Opened disk name → disk.contents name <+: payload
  behind : ∀ name, start.Opened disk name → o.wire (disk.contents name) <+: journal.passed
  others : ∀ name, ¬ start.Opened disk name → disk.find? name = start.find? name

namespace Relay

variable {o options : Options} {r r' r₁ mid : Relay} {halt : Halt} {start disk : Disk}
  {journal : Journal}
  {input payload released whole : Bytes} {permit n : Nat}

theorem prefixed_of_keeps (hwhole : whole <+: payload)
    (hbehind : options.settled.wire whole <+: journal.passed)
    (hpassed : journal.passed <+: options.settled.stream payload)
    (hkeeps : start.Keeps whole disk) :
    Prefixed options start payload journal disk := by
  rw [options.stream_settled] at hpassed
  refine ⟨hpassed, fun name hopened => (hkeeps.contents name hopened).trans hwhole,
    fun name hopened => ?_, hkeeps.others⟩
  rw [← options.wire_settled]
  exact (options.settled.wire_prefix (hkeeps.contents name hopened)).trans hbehind

theorem prefixed_start (hpassed : journal.passed <+: options.settled.wire []) :
    Prefixed options start payload journal start := by
  refine ⟨?_, fun name h => absurd h (start.not_opened_start name),
    fun name h => absurd h (start.not_opened_start name),
    fun _ _ => rfl⟩
  rw [← options.stream_settled]
  exact hpassed.trans
    ((options.settled.wire_prefix List.nil_prefix).trans
      (options.settled.wire_prefix_stream payload))

/-! ### What was released is contained in the input -/

theorem Ledger.contained_eq (h : Ledger o input released r) :
    released ++ r.ready = o.contained input := by
  have hvouched := h.vouched
  have hdecoder := h.decoder
  generalize r.decoder = decoder at hvouched hdecoder
  generalize released ++ r.ready = confirmed at hvouched ⊢
  generalize r.behind = behind at hvouched
  cases hvouched with
  | plain =>
    rw [Options.contained, ← hdecoder]
    rfl
  | framed _ =>
    rw [Options.contained, ← hdecoder]
    rfl

theorem Ledger.released_prefix (h : Ledger o input released r) :
    released <+: o.contained input := by
  rw [← h.contained_eq]
  exact List.prefix_append _ _

theorem Ledger.block_prefix (h : Ledger o input released r) (hpermit : permit ≤ r.ready.length) :
    released ++ r.block permit <+: o.contained input := by
  rw [← h.contained_eq, block_eq hpermit]
  exact (List.prefix_append_right_inj _).2 (List.take_prefix _ _)

/-! ### Releasing -/

/-- A relay whose files hold part of a payload, and whose pass-through output has accepted at least
    what that comes to. -/
structure Within (o : Options) (start : Disk) (payload : Bytes) (r : Relay) : Prop where
  passed : r.journal.passed <+: o.wire payload
  files : ∃ whole, whole <+: payload ∧ o.wire whole <+: r.journal.passed ∧
    r.sinks.Fits start whole r.disk

/-- Between two turns the pass-through output has accepted what the released bytes come to, and the
    files have stored part of those. -/
theorem Ledger.within (h : Ledger o input released r)
    (hstored : r.sinks.Stored start released r.disk) :
    Within o start (o.contained input) r := by
  refine ⟨?_, released, h.released_prefix, ?_, hstored.fits⟩
  · rw [h.passed]
    exact o.wire_prefix h.released_prefix
  · rw [h.passed]

/-- Files get no more than the block of a release, whether they take it or not. -/
theorem stored_storing (hstored : r.sinks.Stored start released r.disk) (permit : Nat) :
    (r.storing permit).state.1.Fits start (released ++ r.block permit) (r.storing permit).state.2 ∧
      ((r.storing permit).result = .ok () →
        (r.storing permit).state.1.Stored start (released ++ r.block permit)
          (r.storing permit).state.2) := by
  apply Sinks.Stored.writeFiles
  unfold Sinks.Stored
  rw [passing, Sinks.files_writePass]
  exact hstored

/-- **What is released is stored**, if every sink takes it. -/
theorem Releasing.stored (h : r.Releasing permit (.ok (r', n)))
    (hstored : r.sinks.Stored start released r.disk) (hpermit : permit ≤ r.ready.length) :
    r'.sinks.Stored start (released ++ r.ready.take n) r'.disk := by
  cases h with
  | released _ hstoring hstate _ _ _ =>
    have hafter := (stored_storing hstored permit).2 hstoring
    rw [← hstate, block_eq hpermit] at hafter
    exact hafter

/-- **A release that fails leaves no more than its block**, and no file more than the pass-through
    output. -/
theorem Ledger.release_error (h : Ledger o input released r)
    (hstored : r.sinks.Stored start released r.disk)
    (hbusy : r.isDone = false) (hpermit : permit ≤ r.ready.length)
    (hrelease : r.Releasing permit (.error halt)) :
    Within o start (o.contained input) halt.relay := by
  have hblock := h.wire_block hbusy hpermit
  have hpassed := h.passed
  have hprefix := o.wire_prefix (h.block_prefix hpermit)
  rw [hblock, ← hpassed] at hprefix
  -- with the block passed on whole, the files may have stored any part of it
  have hpassedOn {after : Relay} (hjournal : r.journal.Extends after.journal (r.offered permit))
      (hfits : after.sinks.Fits start (released ++ r.block permit) after.disk) :
      Within o start (o.contained input) after := by
    have hextended := hjournal.passed_eq
    refine ⟨?_, _, h.block_prefix hpermit, ?_, hfits⟩
    · rw [hextended]
      exact hprefix
    · rw [hextended, hblock, ← hpassed]
  have hfits := (stored_storing hstored permit).1
  cases hrelease with
  | @notPassed e sinks journal part _ hsinks hpart hjournal =>
    have hextended := hjournal.passed_eq
    refine ⟨?_, released, h.released_prefix, ?_, ?_⟩
    · change journal.passed <+: _
      rw [hextended]
      exact ((List.prefix_append_right_inj _).2 hpart).trans hprefix
    · change _ <+: journal.passed
      rw [hextended, hpassed]
      exact List.prefix_append _ _
    · apply hstored.fits.congr
      rw [hsinks]
      exact Sinks.files_writePass _ _
  | @notStored e sinks disk journal _ _ hstate hjournal =>
    rw [← hstate] at hfits
    exact hpassedOn hjournal hfits
  | @overflowed sinks disk journal _ _ _ _ _ hstoring hstate _ hjournal =>
    rw [← hstate] at hfits
    exact hpassedOn hjournal hfits

theorem Ledger.serve_stored (h : Ledger o input released r)
    (hstored : r.sinks.Stored start released r.disk) (hserve : r.releaseReady = .ok r') :
    ∃ block, Ledger o input (released ++ block) r' ∧
      r'.sinks.Stored start (released ++ block) r'.disk := by
  have hserving := r.serving
  rw [hserve] at hserving
  cases hserving with
  | idle _ =>
    refine ⟨[], ?_⟩
    rw [List.append_nil]
    exact ⟨h, hstored⟩
  | served hsome _ _ hjournal hrelease hjournal' =>
    obtain ⟨hbusy, hle⟩ := granted_ready h.validated_le hsome
    obtain ⟨_, hreleased⟩ := Ledger.release (h.relog hjournal) hbusy hsome hle hrelease
    have hstored' := hrelease.stored hstored hle
    exact ⟨_, hreleased.relog hjournal', hstored'⟩

theorem Ledger.serve_error_within (h : Ledger o input released r)
    (hstored : r.sinks.Stored start released r.disk)
    (hserve : r.releaseReady = .error halt) : Within o start (o.contained input) halt.relay := by
  have hserving := r.serving
  rw [hserve] at hserving
  cases hserving with
  | unreckoned _ _ => exact h.within hstored
  | failed _ hsome hjournal hrelease =>
    obtain ⟨hbusy, hle⟩ := granted_ready h.validated_le hsome
    exact Ledger.release_error (h.relog hjournal) hstored hbusy hle hrelease
  | uncounted _ _ hsome hjournal hrelease _ =>
    obtain ⟨hbusy, hle⟩ := granted_ready h.validated_le hsome
    obtain ⟨_, hreleased⟩ := Ledger.release (h.relog hjournal) hbusy hsome hle hrelease
    exact hreleased.within (hrelease.stored hstored hle)

/-! ### Whole turns -/

theorem Ledger.vouched_stored (h : Ledger o input released r)
    (hstored : r.sinks.Stored start released r.disk)
    (hfilled : r.filled = .ok r₁) (hvalidate : r₁.validate = .ok r') :
    r'.sinks.Stored start released r'.disk := by
  obtain ⟨⟨_, _, _, _, _, _, rfl⟩, _⟩ := filled_frame h.validated_le hfilled
  obtain ⟨_, _, _, rfl, _⟩ := validate_frame hvalidate
  exact hstored

theorem stored_tick (hstored : r.sinks.Stored start released r.disk) (htick : r.tick = .ok r') :
    r'.sinks.Stored start released r'.disk := by
  obtain ⟨_, _, _, rfl, _⟩ := tick_ok htick
  exact hstored

/-- **A turn keeps what is stored in step with what is released.** -/
theorem Ledger.turn_stored (h : Ledger o input released r)
    (hstored : r.sinks.Stored start released r.disk)
    (hbusy : r.isDone = false) (hturn : r.turn = .ok r') :
    ∃ block, Ledger o (input ++ r.arrival) (released ++ block) r' ∧
      r'.sinks.Stored start (released ++ block) r'.disk := by
  obtain ⟨r₁, r₂, r₃, hfilled, hvalidate, hserve, htick⟩ := turn_ok hturn
  have hvouched := (h.arrive hbusy hfilled).vouch hvalidate
  obtain ⟨block, hserved, hstored'⟩ :=
    hvouched.serve_stored (h.vouched_stored hstored hfilled hvalidate) hserve
  exact ⟨block, hserved.tick htick, stored_tick hstored' htick⟩

/-- **A turn that fails leaves its outputs within the payload of what was read**, wherever in it the
    fault is. -/
theorem Ledger.turn_error_within (h : Ledger o input released r)
    (hstored : r.sinks.Stored start released r.disk)
    (hbusy : r.isDone = false) (hturn : r.turn = .error halt) :
    Within o start (o.contained (input ++ r.arrival)) halt.relay := by
  rcases Relay.turn_error hturn with hfilled |
    ⟨r₁, hfilled, hvalidate | ⟨r₂, hvalidate, hserve | ⟨r₃, hserve, htick⟩⟩⟩
  · -- what a read that failed brought is not part of the input
    have hnone : r.arrival = [] := by rw [arrival, hfilled]
    have hpassed := (filled_error hfilled).passed_eq
    obtain ⟨hsinks, hdisk⟩ := filled_error_frame hfilled
    obtain ⟨hwire, whole, hwhole, hbehind, hfits⟩ := h.within hstored
    rw [List.append_nil] at hpassed
    rw [hnone, List.append_nil]
    refine ⟨hpassed ▸ hwire, whole, hwhole, hpassed ▸ hbehind, ?_⟩
    rw [hsinks, hdisk]
    exact hfits
  · -- vouching that fails has released nothing of what was read
    have harrived := h.arrive hbusy hfilled
    obtain ⟨e, decoder, rfl, _⟩ := validate_error harrived.unseen hvalidate
    obtain ⟨⟨_, _, _, _, _, _, hr₁⟩, _⟩ := filled_frame h.validated_le hfilled
    have hpassed := harrived.passed
    have hreleased := h.released_prefix.trans (o.contained_append input r.arrival)
    refine ⟨?_, released, hreleased, ?_, ?_⟩
    · change r₁.journal.passed <+: _
      rw [hpassed]
      exact o.wire_prefix hreleased
    · change _ <+: r₁.journal.passed
      rw [hpassed]
    · change r₁.sinks.Fits start released r₁.disk
      rw [hr₁]
      exact hstored.fits
  · have hvouched := (h.arrive hbusy hfilled).vouch hvalidate
    exact hvouched.serve_error_within (h.vouched_stored hstored hfilled hvalidate) hserve
  · have hvouched := (h.arrive hbusy hfilled).vouch hvalidate
    obtain ⟨block, hserved, hstored'⟩ :=
      hvouched.serve_stored (h.vouched_stored hstored hfilled hvalidate) hserve
    obtain ⟨_, _, _, rfl, hjournal⟩ := tick_error htick
    exact (hserved.relog hjournal).within hstored'

/-! ### Closing -/

/-- **Giving the sinks up leaves nothing in the files that was not written to them.** -/
theorem prefixed_giveUp (hwhole : whole <+: payload)
    (hbehind : options.settled.wire whole <+: r.journal.passed)
    (hpassed : r.journal.passed <+: options.settled.stream payload)
    (hfits : r.sinks.Fits start whole r.disk) (result : Except RelayError Report) :
    Prefixed options start payload (r.giveUp result).journal (r.giveUp result).disk := by
  rw [← r.giveUp_passed result] at hbehind hpassed
  exact prefixed_of_keeps hwhole hbehind hpassed hfits.release

theorem Within.giveUp (h : Within options.settled start payload r)
    (result : Except RelayError Report) :
    Prefixed options start payload (r.giveUp result).journal (r.giveUp result).disk := by
  obtain ⟨hpassed, whole, hwhole, hbehind, hfits⟩ := h
  exact prefixed_giveUp hwhole hbehind
    (hpassed.trans (options.settled.wire_prefix_stream payload)) hfits result

/-- **Closing a relay that is done leaves in its outputs part of what was released**, also if a sink
    fails then. -/
theorem Ledger.finish_prefixed (h : Ledger options.settled input released r)
    (hstored : r.sinks.Stored start released r.disk) (hdone : r.isDone) :
    Prefixed options start released (outcome r.finish).journal (outcome r.finish).disk := by
  have hpassed := (h.finish hdone).2.1
  have hwire := h.passed
  have hfits : (r.sinks.writePass r.finale).state.Fits start released r.disk :=
    hstored.fits.congr (Sinks.files_writePass _ _)
  -- whatever is passed on from here on is behind the wire form of what was released
  have hlater {journal : Journal} {bytes : Bytes} (hjournal : r.journal.Extends journal bytes) :
      options.settled.wire released <+: journal.passed := by
    rw [hjournal.passed_eq, hwire]
    exact List.prefix_append _ _
  have hclosing := r.closing
  generalize r.finish = result at hclosing hpassed ⊢
  cases hclosing with
  | @refused e encoder journal _ _ _ _ hjournal =>
    have hbehind := hlater (hjournal.trans (giveUp_journal
      { r with encoder, sinks := (r.sinks.writePass r.finale).state, journal } (.error (.sink e))))
    exact prefixed_of_keeps List.prefix_rfl hbehind hpassed hfits.release
  | @notClosed e encoder sinks disk journal _ _ hstate hjournal =>
    have hclosed := hfits.close
    rw [← hstate] at hclosed
    have hbehind :=
      hlater (hjournal.trans
        (giveUp_journal { r with encoder, sinks, disk, journal } (.error (.sink e))))
    exact prefixed_of_keeps List.prefix_rfl hbehind hpassed hclosed.release
  | @closed encoder sinks disk journal _ _ hstate hjournal =>
    have hclosed := hfits.close
    rw [← hstate] at hclosed
    have hbehind :=
      hlater (hjournal.trans
        (giveUp_journal { r with encoder, sinks, disk, journal } (.ok r.report)))
    exact prefixed_of_keeps List.prefix_rfl hbehind hpassed hclosed.release

/-! ### Whole runs -/

variable {source : Source} {sinks : Sinks} {machine : Machine} {first : Relay} {now : Disk}

/-- **What every relay that is reached has released and stored.** -/
theorem Reaches.stored (hreaches : Reaches first input r)
    (hstarts : Starts options source sinks disk machine first)
    (hfiles : ∀ file ∈ sinks.files, file.state = .unopened) :
    ∃ released, Ledger options.settled input released r ∧ r.sinks.Stored disk released r.disk := by
  have hstart : first.sinks.Stored disk [] first.disk := by
    obtain ⟨hsame, hdisk⟩ := hstarts.files
    rw [← hsame] at hfiles
    exact Or.inl ⟨hfiles, hdisk, rfl⟩
  refine hreaches.preserves
    (P := fun input r => ∃ released, Ledger options.settled input released r ∧
    r.sinks.Stored disk released r.disk) ?_
    ⟨[], hstarts.ledger, hstart⟩
  rintro input r r' ⟨released, hledger, hstored⟩ hbusy hturn
  obtain ⟨block, hledger', hstored'⟩ := hledger.turn_stored hstored hbusy hturn
  exact ⟨released ++ block, hledger', hstored'⟩

/-- **The moments at which the outputs of a run are looked at**, with the input that was read by
    then, what has happened, and the disk: between two turns; in a turn that has passed its block on
    and written it to the first `n` files; and after the run. -/
inductive Moment (options : Options) (source : Source) (sinks : Sinks) (disk : Disk)
    (machine : Machine) :
    Bytes → Journal → Disk → Prop where
  | between {first mid : Relay} {input : Bytes}
    (hstarts : Starts options source sinks disk machine first)
      (hreaches : Reaches first input mid) : Moment options source sinks disk machine input
      mid.journal mid.disk
  | storing {first mid r₁ r₂ : Relay} {input : Bytes}
    (hstarts : Starts options source sinks disk machine first)
      (hreaches : Reaches first input mid) (hbusy : mid.isDone = false)
      (hfilled : mid.filled = .ok r₁)
      (hvalidate : r₁.validate = .ok r₂) (hsome : 0 < r₂.granted.permit)
      (hpassing : (r₂.passing r₂.granted.permit).result = .ok ()) (n : Nat) :
      Moment options source sinks disk machine (input ++ mid.arrival)
        (r₂.journal ++ (r₂.passing r₂.granted.permit).events)
        (({ (r₂.passing r₂.granted.permit).state with files := r₂.sinks.files.take n } :
          Sinks).writeFiles r₂.disk
          (r₂.block r₂.granted.permit)).state.2
  | ended {result : Outcome} (hrun : run options source sinks disk machine = some result) :
      Moment options source sinks disk machine
      (runInput options source sinks disk machine) result.journal result.disk

theorem run_prefixed (hfiles : ∀ file ∈ sinks.files, file.state = .unopened) {result : Outcome}
    (hrun : run options source sinks disk machine = some result) :
    Prefixed options disk
      (options.contained (runInput options source sinks disk machine)) result.journal
      result.disk := by
  cases course hrun with
  | @unprepared e warnings hprepare hresult =>
    subst hresult
    have hquiet : Journal.passed warnings.toArray = [] := (prepare_error hprepare).1
    apply prefixed_start
    change Journal.passed warnings.toArray <+: _
    rw [hquiet]
    exact List.nil_prefix
  | @unopened r halt hprepare hbegin hresult =>
    -- no file was opened, so giving up the sinks leaves the disk as it was
    subst hresult
    obtain ⟨hsame, hdisk⟩ := begin_error_frame hprepare hbegin
    have hpassed := (begin_error hprepare hbegin).2
    have hrelease : halt.relay.sinks.release halt.relay.disk = (disk, []) := by
      rw [Sinks.release, hsame, hdisk]
      exact Sinks.releaseFiles_eq
        (fun file hmem => FileSink.settled_of_unopened (hfiles file hmem)) disk
    have hgone : (outcome (.error halt)).disk = disk := congrArg Prod.fst hrelease
    rw [hgone]
    rw [← giveUp_passed halt.relay (.error halt.error)] at hpassed
    exact prefixed_start hpassed
  | @halted first mid before halt hstarts hreaches hbusy hturn hinput hresult =>
    subst hresult
    obtain ⟨released, hmid, hstored⟩ := hreaches.stored hstarts hfiles
    rw [hinput]
    exact (hmid.turn_error_within hstored hbusy hturn).giveUp (.error halt.error)
  | @closed first last hstarts hreaches hdone hresult =>
    subst hresult
    obtain ⟨released, hlast, hstored⟩ := hreaches.stored hstarts hfiles
    -- nothing is left to release, so what was is all that the input contains
    have hcontained : released =
        options.contained (runInput options source sinks disk machine) := by
      have := hlast.contained_eq
      rwa [ready_of_isDone hdone, List.append_nil] at this
    rw [← hcontained]
    exact hlast.finish_prefixed hstored hdone

/-- **A block gets to the files once the pass-through output has accepted it**, and to some of them
    before others. -/
theorem Ledger.prefixed_storing (h : Ledger options.settled input released r)
    (hstored : r.sinks.Stored start released r.disk) (hbusy : r.isDone = false)
    (hpermit : permit ≤ r.ready.length) (hpassing : (r.passing permit).result = .ok ()) (n : Nat) :
    Prefixed options start (options.contained input) (r.journal ++ (r.passing permit).events)
      (({ (r.passing permit).state with files := r.sinks.files.take n } : Sinks).writeFiles r.disk
        (r.block permit)).state.2 := by
  have hblock := h.block_prefix hpermit
  have hpassed : Journal.passed (r.journal ++ (r.passing permit).events) =
      options.settled.wire (released ++ r.block permit) := by
    rw [(Journal.Extends.log r.journal (r.passing permit).events).passed_eq,
      (r.passedBy_passing permit).2 hpassing, h.wire_block hbusy hpermit, h.passed]
  have htaken : Sinks.Stored start released
      { (r.passing permit).state with files := r.sinks.files.take n } r.disk :=
    hstored.imp (fun ⟨hfiles, hrest⟩ =>
      ⟨fun file hmem => hfiles file (List.mem_of_mem_take hmem), hrest⟩)
      fun ⟨hfiles, hkeeps⟩ => ⟨fun file hmem => hfiles file (List.mem_of_mem_take hmem), hkeeps⟩
  refine prefixed_of_keeps hblock ?_ ?_ (htaken.writeFiles (r.block permit)).1.2
  · rw [hpassed]
  · rw [hpassed]
    exact (options.settled.wire_prefix hblock).trans (options.settled.wire_prefix_stream _)

theorem Moment.prefixed (h : Moment options source sinks disk machine input journal now)
    (hfiles : ∀ file ∈ sinks.files, file.state = .unopened) :
    Prefixed options disk (options.contained input) journal now := by
  cases h with
  | between hstarts hreaches =>
    obtain ⟨released, hmid, hstored⟩ := hreaches.stored hstarts hfiles
    obtain ⟨hpassed, whole, hwhole, hbehind, hfits⟩ := hmid.within hstored
    exact prefixed_of_keeps hwhole hbehind
      (hpassed.trans (options.settled.wire_prefix_stream _)) hfits.2
  | @storing first mid r₁ r₂ input hstarts hreaches hbusy hfilled hvalidate hsome hpassing n =>
    obtain ⟨released, hmid, hstored⟩ := hreaches.stored hstarts hfiles
    have hvouched := (hmid.arrive hbusy hfilled).vouch hvalidate
    obtain ⟨hbusy', hle⟩ := granted_ready hvouched.validated_le hsome
    exact hvouched.prefixed_storing
      (hmid.vouched_stored hstored hfilled hvalidate) hbusy' hle hpassing n
  | ended hrun => exact run_prefixed hfiles hrun

/-- **Whatever fails, the outputs of a run hold payload in its order and nothing else**, and no file
    holds a byte that the pass-through output has not accepted in its wire form: at every moment of
    a run and after it, with files that may lead to anything or to the same thing, sinks that may
    fail at any byte, and any input. The payload is the whole of it if the input is complete, and
    that before a bad escape if there is one. -/
theorem run_outputs_prefixed (hfiles : ∀ file ∈ sinks.files, file.state = .unopened)
    (h : Moment options source sinks disk machine input journal now) :
    Prefixed options disk (options.contained input) journal now ∧
      (∀ payload, options.payload input = .ok payload → Prefixed options disk payload journal now) ∧
      ∀ payload b rest, options.readFraming → b ≠ Tag.mid.byte → b ≠ Tag.finish.byte →
        input = Tag.start.sequence ++ stuff payload ++ marker ++ [b] ++ rest →
        Prefixed options disk payload journal now := by
  have hprefixed := h.prefixed hfiles
  refine ⟨hprefixed, ?_, ?_⟩
  · intro payload hpayload
    rwa [Options.contained_of_payload hpayload] at hprefixed
  · rintro payload b rest hframing hmid hfinish rfl
    rwa [Options.contained_of_bad_tag hframing payload rest hmid hfinish] at hprefixed

/-- A framed input with a bad escape in the second read. -/
def strayTag : Source :=
  .feed ⟨[], [.bytes (Tag.start.sequence ++ [97, 98, 99]),
    .bytes ([100, 101] ++ marker ++ [120])]⟩ []

/-- A pass-through output that takes two bytes first, and a file that takes two bytes and then
    nothing more. -/
def scarceSinks : Sinks :=
  ⟨some ⟨[.accept 2, .interrupted], []⟩, [.ofPath "out" [.accept 2, .fail .noSpace]], false⟩

/-- A bad escape in the second read: what came before it in that read is not relayed any more, and
    of the block before it the file stores two bytes when it is given up. -/
theorem run_outputs_prefixed_of_bad_escape :
    ∃ outcome,
      run { passThrough := true, readFraming := true } strayTag scarceSinks
          (Disk.ofFiles [("out", [7])]) ⟨1048576, []⟩ = some outcome ∧
      outcome.result = .error (.framing (.invalidTag 120)) ∧
      outcome.journal.passed = [97, 98, 99] ∧ outcome.disk.contents "out" = [97, 98] ∧
      Prefixed { passThrough := true, readFraming := true } (Disk.ofFiles [("out", [7])])
        [97, 98, 99, 100, 101] outcome.journal outcome.disk := by
  have hcourse :
      (run { passThrough := true, readFraming := true } strayTag scarceSinks
        (Disk.ofFiles [("out", [7])]) ⟨1048576, []⟩).map
        (fun o => (o.result, o.journal.passed, o.disk.contents "out")) =
      some (.error (.framing (.invalidTag 120)), [97, 98, 99], [97, 98]) := by
    decide +kernel
  obtain ⟨outcome, hrun, houtcome⟩ := Option.map_eq_some_iff.1 hcourse
  obtain ⟨hresult, hpassed, hcontents⟩ := Prod.mk.inj houtcome |>.imp_right Prod.mk.inj
  have hinput : runInput { passThrough := true, readFraming := true } strayTag scarceSinks
      (Disk.ofFiles [("out", [7])]) ⟨1048576, []⟩ =
        Tag.start.sequence ++ stuff [97, 98, 99, 100, 101] ++ marker ++ [120] ++ [] := by
    decide +kernel
  have hprefixed := (run_outputs_prefixed (by decide) (.ended hrun)).2.2 [97, 98, 99, 100, 101] 120
    [] rfl (by decide) (by decide) hinput
  exact ⟨outcome, hrun, hresult, hpassed, hcontents, hprefixed⟩

end Relay

end StreamRelay
