/-
  StreamRelay/Proofs/Relay/Fanout.lean
  ====================================
  **Every sink has what was released.**

  If the pass-through output never fails, and the output files are regular and take every store, or
  cannot be opened, every release that can be counted succeeds: each file and the digest then stand
  where the released bytes are all of their input (`Delivers`). Files are opened by the first
  release, so they are not touched before there is payload.

  Main statements: releasing keeps every sink supplied (`Delivers.serve`), and closing leaves the
  released bytes in every file (`Delivers.finish`).
-/
import StreamRelay.Proofs.Digest.Absorption
import StreamRelay.Proofs.Relay.Containment
import StreamRelay.Proofs.Relay.Traces
import StreamRelay.Proofs.Sink.Opening

namespace StreamRelay

/-- Output files that nothing was written to, each of which takes every store and is regular or
    cannot be opened. Two of them may be opened as the same file. -/
structure Disk.CanFill (start : Disk) (files : List FileSink) : Prop where
  fresh : ∀ file ∈ files, file.Fresh
  ordinary : ∀ device, some (.device device) ∉ start.targetsOf files

theorem Event.outer_isEmission : Event.Outer Event.isEmission := by
  constructor
  · intro event h
    cases event <;> simp [isOpening] at h <;> rfl
  · intro event h
    cases event <;> simp [isServing] at h <;> rfl

namespace Relay

variable {o : Options} {r r' : Relay} {start : Disk} {files : List FileSink} {name : String}
  {input released : Bytes} {permit : Nat}

/-- **Every sink has what was released.** Files are open once there was anything to release. -/
structure Delivers (start : Disk) (files : List FileSink) (released : Bytes) (r : Relay) :
    Prop where
  outlet : r.sinks.Reliable
  stored : r.sinks.Stored start released r.disk
  files : r.sinks.Untouched files start r.disk ∧ released = [] ∨
    Sinks.Attached start (start.targetsOf files) r.sinks.files r.disk ∧ released ++ r.ready ≠ []
  hashing : r.digest.isSome = r.options.digest
  digest : ∀ m, r.digest = some m → m.Holds released

theorem Delivers.congr (h : Delivers start files released r) (hoptions : r'.options = r.options)
    (hsinks : r'.sinks = r.sinks) (hdisk : r'.disk = r.disk) (hdigest : r'.digest = r.digest)
    (hready : r.ready <+: r'.ready) : Delivers start files released r' := by
  refine ⟨?_, ?_, ?_, ?_, ?_⟩
  · rw [hsinks]
    exact h.outlet
  · rw [hsinks, hdisk]
    exact h.stored
  · rw [hsinks, hdisk]
    refine h.files.imp_right fun ⟨hattached, hsome⟩ => ⟨hattached, fun hnone => hsome ?_⟩
    obtain ⟨hreleased, hnone⟩ := List.append_eq_nil_iff.1 hnone
    rw [hnone] at hready
    rw [hreleased, List.prefix_nil.1 hready]
    rfl
  · rw [hdigest, hoptions]
    exact h.hashing
  · rw [hdigest]
    exact h.digest

/-- An output file is none that was there before unless a path was opened as it. -/
theorem Delivers.find?_eq (h : Delivers start files released r)
    (hname : some (.file name) ∉ start.targetsOf files) : r.disk.find? name = start.find? name := by
  rcases h.files with ⟨huntouched, _⟩ | ⟨hattached, hsome⟩
  · rw [huntouched.disk_eq]
  · rcases h.stored with ⟨_, hdisk, _⟩ | ⟨_, hkeeps⟩
    · rw [hdisk]
    · exact hkeeps.others name fun hopened => hname ((hattached.opened name).1 hopened)

theorem Delivers.signature_eq (h : Delivers start files released r) :
    r.digest.map (·.signature) =
      if r.options.digest then some (Digest.md5 released) else none := by
  rw [← h.hashing]
  rcases hdigest : r.digest with _ | m
  · rfl
  · rw [Option.map_some, (h.digest m hdigest).signature_eq]
    rfl

section Releasing

variable (hfill : start.CanFill files)
include hfill

/-- **The files take every block**, and put nothing on a standard output. -/
theorem Delivers.storing (h : Delivers start files released r) (permit : Nat) :
    (r.storing permit).result = .ok () ∧
      Sinks.Attached start (start.targetsOf files) (r.storing permit).state.1.files
        (r.storing permit).state.2 ∧
      ∀ event ∈ (r.storing permit).events, event.isEmission = false := by
  have hfiles : (r.passing permit).state.files = r.sinks.files := Sinks.files_writePass _ _
  rcases h.files with ⟨huntouched, _⟩ | ⟨hattached, _⟩
  · have huntouched' : Sinks.Untouched files start (r.passing permit).state r.disk :=
      ⟨hfiles.trans huntouched.files_eq, huntouched.disk_eq, huntouched.unopened⟩
    exact huntouched'.attach hfill.fresh hfill.ordinary (r.block permit)
  · rw [← hfiles] at hattached
    exact hattached.writeFiles (r.block permit)

/-- **A release reaches every sink**, if it can be counted. -/
theorem Delivers.release (h : Delivers start files released r)
    (hvalidated : r.validated ≤ r.buffer.length) (hpos : 0 < permit)
    (hpermit : permit ≤ r.ready.length) {result : Except Halt (Relay × Nat)}
    (hrelease : r.Releasing permit result) :
    (∃ r', result = .ok (r', (r.portion permit).used) ∧
      Delivers start files (released ++ r.ready.take (r.portion permit).used) r') ∨
    ∃ e relay, result = .error ⟨.overflow e, relay⟩ := by
  obtain ⟨hpassed, hreliable⟩ := h.outlet.writePass (r.portion permit).out
  obtain ⟨hstored, hattached, _⟩ := h.storing hfill permit
  cases hrelease with
  | notPassed hfailed _ _ _ =>
    rw [passing, hpassed] at hfailed
    cases hfailed
  | notStored _ hfailed _ _ =>
    rw [hstored] at hfailed
    cases hfailed
  | overflowed e _ _ _ _ _ => exact Or.inr ⟨e, _, rfl⟩
  | @released sinks disk journal _ progress hpassing hstoring hstate hadvance hcount hjournal =>
    have hused := Nat.le_trans (r.portion_used_le permit) hpermit
    have hready := (ready_deliver hvalidated hused sinks disk progress journal).1
    have hsinks : sinks = (r.storing permit).state.1 := congrArg Prod.fst hstate
    refine Or.inl ⟨_, rfl, ?_, ?_, Or.inr ⟨?_, ?_⟩, Option.isSome_map.trans h.hashing, ?_⟩
    · change sinks.Reliable
      rw [hsinks]
      exact hreliable
    · have hreleasing := Releasing.released hpassing hstoring hstate hadvance hcount hjournal
      exact hreleasing.stored h.stored hpermit
    · rw [← hstate] at hattached
      exact hattached
    · -- something was ready, so something is ready or released now
      rw [hready, List.append_assoc, List.take_append_drop]
      intro hnone
      rw [(List.append_eq_nil_iff.1 hnone).2] at hpermit
      exact absurd hpermit (Nat.not_le_of_lt hpos)
    · intro m hm
      obtain ⟨m', hm', rfl⟩ := Option.map_eq_some_iff.1 hm
      rw [← block_eq hpermit]
      exact (h.digest m' hm').absorb (r.block permit)

/-- **Releasing what may be released keeps every sink supplied**, and fails only for want of a
    number. -/
theorem Delivers.serve (h : Delivers start files released r) (hledger : Ledger o input released r) :
    (∃ block r', r.releaseReady = .ok r' ∧ Ledger o input (released ++ block) r' ∧
      Delivers start files (released ++ block) r') ∨
    ∃ e relay, r.releaseReady = .error ⟨.overflow e, relay⟩ := by
  have hvalidated := hledger.validated_le
  have hpaused (journal : Journal) : Delivers start files released
      { r with clock := r.clock + r.granted.pause, journal } :=
    h.congr rfl rfl rfl rfl List.prefix_rfl
  have hserving := r.serving
  generalize r.releaseReady = result at hserving ⊢
  cases hserving with
  | idle _ =>
    refine Or.inl ⟨[], r, rfl, ?_⟩
    rw [List.append_nil]
    exact ⟨hledger, h⟩
  | unreckoned e _ => exact Or.inr ⟨e, _, rfl⟩
  | @failed journal _ _ hsome _ hrelease =>
    have hle := (granted_ready hvalidated hsome).2
    rcases (hpaused journal).release hfill hvalidated hsome hle hrelease with
      ⟨_, hok, _⟩ | ⟨e, relay, herror⟩
    · cases hok
    · exact Or.inr ⟨e, relay, congrArg Except.error (Except.error.inj herror)⟩
  | uncounted e _ _ _ _ _ => exact Or.inr ⟨e, _, rfl⟩
  | @served journal journal' r₁ n hsome _ _ hjournal hrelease hjournal' =>
    obtain ⟨hbusy, hle⟩ := granted_ready hvalidated hsome
    obtain ⟨_, hreleased⟩ := Ledger.release (hledger.relog hjournal) hbusy hsome hle hrelease
    rcases (hpaused journal).release hfill hvalidated hsome hle hrelease with
      ⟨_, hok, hdelivers⟩ | ⟨_, _, herror⟩
    · cases hok
      exact Or.inl ⟨_, _, rfl, hreleased.relog hjournal',
        hdelivers.congr rfl rfl rfl rfl List.prefix_rfl⟩
    · cases herror

/-- **Releasing puts nothing on a standard output** besides what it passes on. -/
theorem Delivers.silent (h : Delivers start files released r) (hserve : r.releaseReady = .ok r') :
    r'.journal.ofKind Event.isEmission = r.journal.ofKind Event.isEmission := by
  have hsilent := ofKind_releaseReady Event.outer_isEmission r fun permit =>
    (h.storing hfill permit).2.2
  rwa [hserve] at hsilent

end Releasing

/-! ### Closing -/

/-- **The sinks of a relay that is done can be closed**, and that leaves all that was released in
    each file. -/
theorem Delivers.close (h : Delivers start files released r) (hdone : r.isDone) :
    (r.sinks.writePass r.finale).result = .ok () ∧
      ((r.sinks.writePass r.finale).state.close r.disk).result = .ok () ∧
      start.Filled (start.targetsOf files) released
        ((r.sinks.writePass r.finale).state.close r.disk).state.2 ∧
      (∀ file ∈ ((r.sinks.writePass r.finale).state.close r.disk).state.1.files, file.Settled) ∧
      ∀ event ∈ (Sinks.eachFile FileSink.close r.sinks.files r.disk).events,
        event.isEmission = false := by
  obtain ⟨hpassed, hreliable⟩ := h.outlet.writePass r.finale
  have hfiles : (r.sinks.writePass r.finale).state.files = r.sinks.files :=
    Sinks.files_writePass _ _
  refine ⟨hpassed, ?_⟩
  rw [← hfiles]
  rcases h.files with ⟨huntouched, hnone⟩ | ⟨hattached, hsome⟩
  · have huntouched' : Sinks.Untouched files start (r.sinks.writePass r.finale).state r.disk :=
      ⟨hfiles.trans huntouched.files_eq, huntouched.disk_eq, huntouched.unopened⟩
    rw [hnone]
    -- no block came, and no file is opened to be closed
    exact huntouched'.leave hreliable _
  · rw [ready_of_isDone hdone, List.append_nil] at hsome
    have hstored := h.stored
    unfold Sinks.Stored at hstored
    rw [← hfiles] at hattached hstored
    exact hattached.close hstored hreliable hsome

/-- **A relay that is done is closed with everything in its place.** -/
theorem Delivers.finish (h : Delivers start files released r) (hledger : Ledger o input released r)
    (hdone : r.isDone) :
    (outcome r.finish).result =
        .ok ⟨input.length, released.length, r.clock,
          if o.digest then some (Digest.md5 released) else none⟩ ∧
      (outcome r.finish).journal.passed = o.stream released ∧
      (outcome r.finish).journal.ofKind Event.isEmission =
        r.journal.ofKind Event.isEmission ∧
      start.Filled (start.targetsOf files) released (outcome r.finish).disk := by
  obtain ⟨hpassed, hok, hfilled, hsettled, hquiet⟩ := h.close hdone
  have hsilent := ofKind_finish Event.outer_isEmission hquiet
  have hending := (hledger.finish hdone).2.2
  have hreport : r.report = ⟨input.length, released.length, r.clock,
      if o.digest then some (Digest.md5 released) else none⟩ := by
    rw [report, hledger.bytesRead, hledger.bytesReleased, h.signature_eq, hledger.options]
  have hclosing := r.closing
  generalize r.finish = result at hclosing hsilent hending ⊢
  cases hclosing with
  | refused hfailed _ _ _ =>
    rw [hpassed] at hfailed
    cases hfailed
  | notClosed _ hfailed _ _ =>
    rw [hok] at hfailed
    cases hfailed
  | @closed encoder sinks disk journal _ _ hstate _ =>
    obtain ⟨_, _, hstream⟩ | ⟨e, hfailed⟩ := hending
    · have hsinks : sinks = ((r.sinks.writePass r.finale).state.close r.disk).state.1 :=
        congrArg Prod.fst hstate
      have hdisk : disk = ((r.sinks.writePass r.finale).state.close r.disk).state.2 :=
        congrArg Prod.snd hstate
      -- with no file left open there is nothing to give up
      rw [← hsinks] at hsettled
      have hrelease : sinks.release disk = (disk, []) := Sinks.releaseFiles_eq hsettled disk
      refine ⟨congrArg Except.ok hreport, hstream, ?_, ?_⟩
      · refine (ofKind_outcome _ ?_).trans hsilent
        change ∀ event ∈ (sinks.release disk).2, _
        rw [hrelease]
        simp
      · change start.Filled _ _ (sinks.release disk).1
        rw [hrelease, hdisk]
        exact hfilled
    · cases hfailed

/-! ### The start of a run -/

variable {options : Options} {source : Source} {sinks : Sinks} {disk : Disk} {machine : Machine}
  {first : Relay}

theorem Starts.reliable (h : Starts options source sinks disk machine first)
    (hreliable : sinks.Reliable) : first.sinks.Reliable := by
  obtain ⟨warnings, buffer, progress, bytes, journal, _, _, _, rfl⟩ := h.eq
  exact ((hreliable.enablePass _).writePass bytes).2

theorem Starts.delivers (h : Starts options source sinks disk machine first)
    (hreliable : sinks.Reliable) (hfill : disk.CanFill sinks.files) :
    Delivers disk sinks.files [] first := by
  obtain ⟨hfiles, hdisk⟩ := h.files
  have hunopened : ∀ file ∈ sinks.files, file.state = .unopened :=
    fun file hmem => (hfill.fresh file hmem).unopened
  have hstart := h.reliable hreliable
  have hstored : first.sinks.Stored disk [] first.disk := by
    refine Or.inl ⟨?_, hdisk, rfl⟩
    rw [hfiles]
    exact hunopened
  obtain ⟨warnings, buffer, progress, bytes, journal, _, _, _, hfirst⟩ := h.eq
  refine ⟨hstart, hstored, Or.inl ⟨⟨hfiles, hdisk, hunopened⟩, rfl⟩, ?_, ?_⟩
  · rw [hfirst]
    change (if options.digest then some _ else none).isSome = options.digest
    cases options.digest <;> rfl
  · rw [hfirst]
    change ∀ m, (if options.digest then some Digest.Absorber.empty else none) = some m → _
    intro m hm
    split at hm
    · cases hm
      exact Digest.Absorber.holds_empty
    · cases hm

/-- Before its first turn a run has put nothing on a standard output through its files. -/
theorem Starts.silent (h : Starts options source sinks disk machine first) :
    first.journal.ofKind Event.isEmission = [] := by
  obtain ⟨r, hprepare, hbegin⟩ := h
  obtain ⟨o, warnings, buffer, progress, hvalidate, _, _, rfl⟩ := prepare_ok hprepare
  have hpassed := ofKind_passOnly Event.outer_isEmission
    (ofOptions o source sinks disk machine buffer progress warnings).opened
    (ofOptions o source sinks disk machine buffer progress warnings).prelude
  rw [← begin_eq, hbegin] at hpassed
  refine hpassed.trans (Journal.ofKind_eq_nil.2 fun event hmem => ?_)
  exact Event.outer_isEmission.opening event
    (Options.isOpening_warnings hvalidate event (List.mem_toArray.1 hmem))

end Relay

end StreamRelay
