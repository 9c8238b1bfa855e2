/-
  StreamRelay/Proofs/Relay/Run.lean
  =================================
  **Whole runs: opening, turn after turn, and closing.**

  What holds before the first turn and is kept by every turn holds of every relay that is reached. A
  run either halts in one of its turns or comes to a relay that is done, and that one is closed.

  Main statements: the ledger of every relay that a run reaches (`Reaches.ledger`), and what a run
  can come to (`Ending`).
-/
import StreamRelay.Proofs.Relay.Ledger

namespace StreamRelay

open Framing

/-! ### Options and outputs -/

/-- What the pass-through output has accepted of a payload that was relayed to its end. -/
def Options.stream (o : Options) (payload : Bytes) : Bytes :=
  if o.passThrough then if o.writeFraming then frame payload else payload else []

/-- The options as they are used: nothing is framed for a pass-through output that there is not. -/
def Options.settled (o : Options) : Options :=
  { o with writeFraming := o.writeFraming && o.passThrough }

theorem Options.stream_settled (options : Options) (payload : Bytes) :
    options.settled.stream payload =
      if options.passThrough then if options.writeFraming then encodeChunks [payload] else payload
        else [] := by
  rw [encodeChunks_eq_frame, List.flatten_singleton, stream, settled]
  cases options.passThrough <;> cases options.writeFraming <;> rfl

theorem Options.validate_ok {o options : Options} {warnings : List Event}
    (h : options.validate = .ok (o, warnings)) :
    o = options.settled ∧
      minBufferSize ≤ options.bufferSize ∧ options.rateEvery ≠ some 0 ∧ passedBy warnings = [] := by
  unfold Options.validate at h
  split at h
  · cases h
  · next hsize =>
    split at h
    · cases h
    · next hrate =>
      have hsize := Nat.le_of_not_lt hsize
      split at h
      · next hdisabled =>
        cases h
        rw [Bool.and_eq_true, Bool.not_eq_true'] at hdisabled
        rw [settled, hdisabled.2, Bool.and_false]
        exact ⟨rfl, hsize, hrate, rfl⟩
      · next henabled =>
        cases h
        refine ⟨?_, hsize, hrate, rfl⟩
        have hsame : (o.writeFraming && o.passThrough) = o.writeFraming := by
          cases hw : o.writeFraming <;> cases hp : o.passThrough <;> simp_all
        rw [settled, hsame]

namespace Relay

variable {o : Options} {r r' mid : Relay} {halt : Halt} {before input released bytes : Bytes}
  {n : Nat}

/-! ### Turn after turn -/

/-- Some turns, of which none but the last leaves the relay done, read `input` and take a relay to
    another. -/
inductive Reaches (r : Relay) : Bytes → Relay → Prop where
  | refl : Reaches r [] r
  | turn {before : Bytes} {mid r' : Relay} (h : Reaches r before mid) (hbusy : mid.isDone = false)
      (hturn : mid.turn = .ok r') : Reaches r (before ++ mid.arrival) r'

theorem Reaches.head (hbusy : r.isDone = false) (hturn : r.turn = .ok mid)
    (h : Reaches mid input r') :
    Reaches r (r.arrival ++ input) r' := by
  induction h with
  | refl =>
    have := Reaches.refl.turn hbusy hturn
    rwa [List.nil_append, ← List.append_nil r.arrival] at this
  | turn _ hbusy' hturn' ih =>
    rw [← List.append_assoc]
    exact ih.turn hbusy' hturn'

theorem Reaches.preserves {P : Bytes → Relay → Prop}
    (hstep : ∀ input r r', P input r → r.isDone = false → r.turn = .ok r' →
      P (input ++ r.arrival) r')
    (hstart : P [] r) (h : Reaches r input r') : P input r' := by
  induction h with
  | refl => exact hstart
  | turn _ hbusy hturn ih => exact hstep _ _ _ ih hbusy hturn

/-- **The ledger of every relay that is reached.** -/
theorem Reaches.ledger (h : Reaches r input r') (hstart : Ledger o [] [] r) :
    ∃ released, Ledger o input released r' := by
  refine h.preserves (P := fun input r => ∃ released, Ledger o input released r) ?_ ⟨[], hstart⟩
  rintro input r r' ⟨released, hledger⟩ hbusy hturn
  obtain ⟨block, hledger'⟩ := hledger.turn hbusy hturn
  exact ⟨released ++ block, hledger'⟩

def inputOf : Nat → Relay → Bytes
  | 0, _ => []
  | n + 1, r =>
    match r.turn with
    | .error _ => r.arrival
    | .ok r' => if r'.isDone then r.arrival else r.arrival ++ inputOf n r'

theorem turns_ok (hbusy : r.isDone = false) (h : turns n r = some (.ok r')) :
    Reaches r (inputOf n r) r' ∧ r'.isDone := by
  induction n generalizing r with
  | zero => cases h
  | succ n ih =>
    unfold turns at h
    unfold inputOf
    rcases hturn : r.turn with halt | mid
    · rw [hturn] at h
      cases h
    · rw [hturn] at h
      dsimp only at h ⊢
      cases hdone : mid.isDone with
      | true =>
        rw [hdone] at h
        cases h
        have := Reaches.refl.turn hbusy hturn
        rw [List.nil_append] at this
        exact ⟨this, hdone⟩
      | false =>
        rw [hdone] at h
        obtain ⟨hreaches, hdone'⟩ := ih hdone h
        exact ⟨hreaches.head hbusy hturn, hdone'⟩

theorem turns_error (hbusy : r.isDone = false) (h : turns n r = some (.error halt)) :
    ∃ before mid, Reaches r before mid ∧ mid.isDone = false ∧ mid.turn = .error halt ∧
      inputOf n r = before ++ mid.arrival := by
  induction n generalizing r with
  | zero => cases h
  | succ n ih =>
    unfold turns at h
    unfold inputOf
    rcases hturn : r.turn with halt' | mid
    · rw [hturn] at h
      cases h
      exact ⟨[], r, .refl, hbusy, hturn, rfl⟩
    · rw [hturn] at h
      dsimp only at h ⊢
      cases hdone : mid.isDone with
      | true =>
        rw [hdone] at h
        cases h
      | false =>
        rw [hdone] at h
        obtain ⟨before, last, hreaches, hbusy', hfails, hinput⟩ := ih hdone h
        refine ⟨r.arrival ++ before, last, hreaches.head hbusy hturn, hbusy', hfails, ?_⟩
        rw [if_neg Bool.noConfusion, hinput, List.append_assoc]

/-! ### Opening and closing -/

inductive Passing (r : Relay) (bytes : Bytes) : Except Halt Relay → Prop where
  | refused {e : SinkError} {journal : Journal} {part : Bytes}
      (hwrite : (r.sinks.writePass bytes).result = .error e) (hpart : part <+: bytes)
      (hpass : r.sinks.pass.isSome) (hjournal : r.journal.Extends journal part) :
      Passing r bytes
        (.error ⟨.sink e, { r with sinks := (r.sinks.writePass bytes).state, journal }⟩)
  | passed {journal : Journal} (hwrite : (r.sinks.writePass bytes).result = .ok ())
      (hjournal : r.journal.Extends journal (if r.sinks.pass.isSome then bytes else [])) :
      Passing r bytes (.ok { r with sinks := (r.sinks.writePass bytes).state, journal })

theorem passing_passOnly (r : Relay) (bytes : Bytes) : r.Passing bytes (r.passOnly bytes) := by
  have hextends := Journal.Extends.log r.journal (r.sinks.writePass bytes).events
  unfold passOnly
  dsimp only
  rcases hwrite : (r.sinks.writePass bytes).result with e | _
  · refine .refused hwrite (r.sinks.writePass_prefix bytes) ?_ hextends
    rw [Option.isSome_iff_ne_none]
    intro hnone
    rw [Sinks.writePass_none hnone] at hwrite
    cases hwrite
  · refine .passed hwrite ?_
    have hpassed : passedBy (r.sinks.writePass bytes).events = if r.sinks.pass.isSome then bytes
        else [] := by
      by_cases hpass : r.sinks.pass.isSome
      · rw [if_pos hpass]
        exact Sinks.writePass_all hpass hwrite
      · rw [if_neg hpass, Sinks.writePass_none (by simpa using hpass)]
        rfl
    rwa [hpassed] at hextends

def prelude (r : Relay) : Bytes :=
  match r.encoder with
  | none => []
  | some encoder => encoder.begin.1

def finale (r : Relay) : Bytes :=
  match r.encoder with
  | none => []
  | some encoder => encoder.finish.1

theorem writePass_nil (s : Sinks) : s.writePass [] = .quiet s := by
  unfold Sinks.writePass
  split <;> rfl

theorem passOnly_nil (r : Relay) : r.passOnly [] = .ok r := by
  unfold passOnly
  rw [writePass_nil]
  simp [Effect.quiet]

def opened (r : Relay) : Relay := { r with encoder := r.encoder.map fun (e : Encoder) => e.begin.2 }

def finished (r : Relay) : Relay :=
  { r with encoder := r.encoder.map fun (e : Encoder) => e.finish.2 }

theorem begin_eq (r : Relay) : r.begin = r.opened.passOnly r.prelude := by
  unfold begin prelude
  rcases hencoder : r.encoder with _ | encoder
  · have hsame : r.opened = r := by
      rw [opened, hencoder, Option.map_none, ← hencoder]
    rw [hsame]
    exact (passOnly_nil r).symm
  · rw [opened, hencoder]
    rfl

/-- What can come of the start of a run. -/
theorem passing_begin (r : Relay) : r.opened.Passing r.prelude r.begin := by
  rw [begin_eq]
  exact passing_passOnly r.opened r.prelude

theorem finishFraming_eq (r : Relay) : r.finishFraming = r.finished.passOnly r.finale := by
  unfold finishFraming finale
  rcases hencoder : r.encoder with _ | encoder
  · have hsame : r.finished = r := by
      rw [finished, hencoder, Option.map_none, ← hencoder]
    rw [hsame]
    exact (passOnly_nil r).symm
  · rw [finished, hencoder]
    rfl

/-- How closing goes: the finish escape is not accepted, a sink cannot be flushed or closed, or all
    is closed. -/
inductive Closing (r : Relay) : Except Halt Relay → Prop where
  | refused {e : SinkError} {encoder : Option Encoder} {journal : Journal} {part : Bytes}
      (hwrite : (r.sinks.writePass r.finale).result = .error e) (hpart : part <+: r.finale)
      (hpass : r.sinks.pass.isSome) (hjournal : r.journal.Extends journal part) :
      Closing r (.error ⟨.sink e,
        { r with encoder, sinks := (r.sinks.writePass r.finale).state, journal }⟩)
  | notClosed {e : SinkError} {encoder : Option Encoder} {sinks : Sinks} {disk : Disk}
      {journal : Journal}
      (hwrite : (r.sinks.writePass r.finale).result = .ok ())
      (hclose : ((r.sinks.writePass r.finale).state.close r.disk).result = .error e)
      (hstate : (sinks, disk) = ((r.sinks.writePass r.finale).state.close r.disk).state)
      (hjournal : r.journal.Extends journal (if r.sinks.pass.isSome then r.finale else [])) :
      Closing r (.error ⟨.sink e, { r with encoder, sinks, disk, journal }⟩)
  | closed {encoder : Option Encoder} {sinks : Sinks} {disk : Disk} {journal : Journal}
      (hwrite : (r.sinks.writePass r.finale).result = .ok ())
      (hclose : ((r.sinks.writePass r.finale).state.close r.disk).result = .ok ())
      (hstate : (sinks, disk) = ((r.sinks.writePass r.finale).state.close r.disk).state)
      (hjournal : r.journal.Extends journal (if r.sinks.pass.isSome then r.finale else [])) :
      Closing r (.ok { r with encoder, sinks, disk, journal })

theorem finish_eq (r : Relay) :
    r.finish =
      ((r.log (progressing r.progress.finish.1)).finished.passOnly r.finale).bind closeSinks := by
  change ((r.logProgress r.progress.finish.1).finishFraming).bind closeSinks = _
  rw [logProgress_eq, finishFraming_eq]
  rfl

/-- **What can come of closing.** -/
theorem closing (r : Relay) : r.Closing r.finish := by
  have hquiet := passedBy_progressing r.progress.finish.1
  have hfinish := r.finish_eq
  -- what the progress line says does not matter any more, and the cases below are slow to check
  -- with it in sight
  generalize progressing r.progress.finish.1 = events at hquiet hfinish
  have hprogress := Journal.Extends.log_quiet r.journal hquiet
  have hpassing := passing_passOnly (r.log events).finished r.finale
  rw [hfinish]
  generalize (r.log events).finished.passOnly r.finale = outcome at hpassing
  cases hpassing with
  | refused hwrite hpart hpass hjournal =>
    have := hprogress.trans hjournal
    exact .refused hwrite hpart hpass this
  | @passed journal hwrite hjournal =>
    have hclosed := (hprogress.trans hjournal).quiet
      (.log_quiet journal (Sinks.passedBy_close (r.sinks.writePass r.finale).state r.disk))
    unfold Except.bind closeSinks
    dsimp only
    split
    · next e hclose => exact .notClosed hwrite hclose rfl hclosed
    · next hclose => exact .closed hwrite hclose rfl hclosed

/-! ### Whole runs -/

variable {options : Options} {source : Source} {sinks : Sinks} {disk : Disk} {machine : Machine}

/-- The relay of a run before anything is written; or why there is none, and the warnings until
    then. -/
def prepare (options : Options) (source : Source) (sinks : Sinks) (disk : Disk)
    (machine : Machine) :
    Except (RelayError × List Event) Relay :=
  match options.validate with
  | .error e => .error (.config e, [])
  | .ok (o, warnings) =>
    match ReadBuffer.ofCapacity? machine.memory o.bufferSize with
    | .error bytes => .error (.allocation bytes, warnings)
    | .ok buffer =>
      match Progress.start? .working o.dotEvery o.rateEvery with
      | .error e => .error (.overflow e, warnings)
      | .ok progress => .ok (ofOptions o source sinks disk machine buffer progress warnings)

theorem run_eq (options : Options) (source : Source) (sinks : Sinks) (disk : Disk)
    (machine : Machine) :
    run options source sinks disk machine =
      match prepare options source sinks disk machine with
      | .error (e, warnings) => some ⟨.error e, warnings.toArray, 0, disk⟩
      | .ok r => r.complete.map outcome := by
  unfold run prepare
  rcases options.validate with e | ⟨o, warnings⟩
  · rfl
  · dsimp only
    rcases ReadBuffer.ofCapacity? machine.memory o.bufferSize with bytes | buffer
    · rfl
    · dsimp only
      rcases Progress.start? .working o.dotEvery o.rateEvery with e | progress
      · rfl
      · rfl

theorem prepare_ok (h : prepare options source sinks disk machine = .ok r) :
    ∃ o warnings buffer progress,
      options.validate = .ok (o, warnings) ∧
      ReadBuffer.ofCapacity? machine.memory o.bufferSize = .ok buffer ∧
      Progress.start? .working o.dotEvery o.rateEvery = .ok progress ∧
      r = ofOptions o source sinks disk machine buffer progress warnings := by
  unfold prepare at h
  split at h
  · cases h
  · next o warnings hvalidate =>
    split at h
    · cases h
    · next buffer hbuffer =>
      split at h
      · cases h
      · next progress hprogress =>
        cases h
        exact ⟨o, warnings, buffer, progress, hvalidate, hbuffer, hprogress, rfl⟩

/-- A relay that cannot be made has passed nothing on, and no sink is to blame. -/
theorem prepare_error {e : RelayError} {warnings : List Event}
    (h : prepare options source sinks disk machine = .error (e, warnings)) :
    passedBy warnings = [] ∧ ∀ s, e ≠ .sink s := by
  unfold prepare at h
  split at h
  · cases h
    exact ⟨rfl, fun _ => RelayError.noConfusion⟩
  · next o warnings' hvalidate =>
    have hquiet := (Options.validate_ok hvalidate).2.2.2
    split at h
    · cases h
      exact ⟨hquiet, fun _ => RelayError.noConfusion⟩
    · split at h
      · cases h
        exact ⟨hquiet, fun _ => RelayError.noConfusion⟩
      · cases h

theorem view_ofCapacity? {memory capacity : Nat} {buffer : ReadBuffer}
    (h : ReadBuffer.ofCapacity? memory capacity = .ok buffer) :
    buffer.view = [] ∧ buffer.capacity = capacity ∧ capacity < memory := by
  unfold ReadBuffer.ofCapacity? at h
  split at h
  · next hlimit =>
    cases h
    exact ⟨rfl, rfl, hlimit⟩
  · cases h

theorem isSome_enablePass (s : Sinks) (enabled : Bool) :
    (s.enablePass enabled).pass.isSome = enabled := by
  cases enabled <;> rfl

theorem files_enablePass (s : Sinks) (enabled : Bool) : (s.enablePass enabled).files = s.files := by
  cases enabled <;> rfl

theorem wire_nil (o : Options) (source : Source) (sinks : Sinks) (disk : Disk) (machine : Machine)
    (buffer : ReadBuffer) (progress : Progress) (warnings : List Event) :
    o.wire [] =
      if o.passThrough then (ofOptions o source sinks disk machine buffer progress warnings).prelude
        else [] := by
  unfold Options.wire prelude ofOptions
  cases o.writeFraming <;> rfl

/-- A start escape that is not accepted is a fault of the pass-through output. -/
theorem begin_error (h : prepare options source sinks disk machine = .ok r)
    (hbegin : r.begin = .error halt) :
    (∃ e, halt.error = .sink e) ∧ halt.relay.journal.passed <+: options.settled.wire [] := by
  obtain ⟨o, warnings, buffer, progress, hvalidate, _, _, rfl⟩ := prepare_ok h
  obtain ⟨rfl, _, _, hwarnings⟩ := Options.validate_ok hvalidate
  have hpassing :=
    passing_begin (ofOptions options.settled source sinks disk machine buffer progress warnings)
  rw [hbegin] at hpassing
  cases hpassing with
  | @refused e journal part hwrite hpart hpass hjournal =>
    refine ⟨⟨e, rfl⟩, ?_⟩
    have hstart : Journal.passed warnings.toArray = [] := by
      rw [← hwarnings]
      rfl
    change (sinks.enablePass options.settled.passThrough).pass.isSome at hpass
    rw [isSome_enablePass] at hpass
    change journal.passed <+: _
    rw [hjournal.passed_eq,
      wire_nil options.settled source sinks disk machine buffer progress warnings, if_pos hpass]
    change Journal.passed warnings.toArray ++ part <+: _
    rwa [hstart]

/-- It touches no file. -/
theorem begin_error_frame (h : prepare options source sinks disk machine = .ok r)
    (hbegin : r.begin = .error halt) :
    halt.relay.sinks.files = sinks.files ∧ halt.relay.disk = disk := by
  obtain ⟨o, warnings, buffer, progress, _, _, _, rfl⟩ := prepare_ok h
  have hpassing :=
    passing_begin (ofOptions o source sinks disk machine buffer progress warnings)
  rw [hbegin] at hpassing
  cases hpassing with
  | refused _ _ _ _ => exact ⟨(Sinks.files_writePass _ _).trans (files_enablePass sinks _), rfl⟩

/-- **A relay that wrote its start escape starts with nothing read and nothing released.** -/
theorem ledger_begin (h : prepare options source sinks disk machine = .ok r)
    (hbegin : r.begin = .ok r') :
    Ledger options.settled [] [] r' ∧ r'.isDone = false := by
  obtain ⟨o, warnings, buffer, progress, hvalidate, hbuffer, _, rfl⟩ := prepare_ok h
  obtain ⟨hview, _⟩ := view_ofCapacity? hbuffer
  obtain ⟨rfl, _, _, hwarnings⟩ := Options.validate_ok hvalidate
  generalize options.settled = o at *
  -- the start escape is the only write so far, and all of it was accepted
  have hpassing :=
    passing_begin (ofOptions o source sinks disk machine buffer progress warnings)
  rw [hbegin] at hpassing
  cases hpassing with
  | @passed journal hwrite hjournal =>
    refine ⟨⟨⟨rfl, ?_, ?_, ?_, Nat.zero_le _, rfl, rfl, fun hcap => ⟨Nat.zero_le _, fun _ => hcap⟩,
      fun hend => Bool.noConfusion hend, ?_⟩, ?_, fun hend => Bool.noConfusion hend,
      fun _ => Or.inl (seam_nil _)⟩, rfl⟩
    · unfold opened ofOptions
      cases o.readFraming <;> rfl
    · unfold opened ofOptions
      cases o.writeFraming <;> rfl
    · obtain ⟨pass, hstate, hsome⟩ := (sinks.enablePass o.passThrough).writePass_state
        (ofOptions o source sinks disk machine buffer progress warnings).prelude
      change Option.isSome ((sinks.enablePass o.passThrough).writePass
        (ofOptions o source sinks disk machine buffer progress warnings).prelude).state.pass = _
      rw [hstate]
      exact hsome.trans (isSome_enablePass sinks o.passThrough)
    · have hstart : Journal.passed warnings.toArray = [] := by
        rw [← hwarnings]
        rfl
      change journal.passed = _
      rw [hjournal.passed_eq]
      change Journal.passed warnings.toArray ++
        (if (sinks.enablePass o.passThrough).pass.isSome then _ else []) = _
      rw [hstart, isSome_enablePass, wire_nil o source sinks disk machine buffer progress warnings]
      rfl
    · have hready : ready (ofOptions o source sinks disk machine buffer progress warnings).opened =
          [] := by
        unfold ready opened ofOptions
        cases o.readFraming <;> simp [hview]
      have hbehind : behind
          (ofOptions o source sinks disk machine buffer progress warnings).opened = [] := by
        unfold behind opened ofOptions
        cases o.readFraming <;> simp [hview]
      change Vouched [] (if o.readFraming then some .notStarted else none)
        ([] ++ ready (ofOptions o source sinks disk machine buffer progress warnings).opened)
        (behind (ofOptions o source sinks disk machine buffer progress warnings).opened)
      rw [hready, hbehind]
      cases o.readFraming with
      | false => exact .plain
      | true => exact .framed Reader.live_start

def runInput (options : Options) (source : Source) (sinks : Sinks) (disk : Disk)
    (machine : Machine) : Bytes :=
  match prepare options source sinks disk machine with
  | .error _ => []
  | .ok r =>
    match r.begin with
    | .error _ => []
    | .ok r => inputOf r.enoughTurns r

/-- A relay that a run takes its turns from. -/
def Starts (options : Options) (source : Source) (sinks : Sinks) (disk : Disk) (machine : Machine)
    (first : Relay) : Prop :=
  ∃ r, prepare options source sinks disk machine = .ok r ∧ r.begin = .ok first

theorem Starts.eq {first : Relay} (h : Starts options source sinks disk machine first) :
    ∃ warnings buffer progress bytes journal,
      ReadBuffer.ofCapacity? machine.memory options.bufferSize = .ok buffer ∧
      minBufferSize ≤ options.bufferSize ∧
      Progress.start? .working options.dotEvery options.rateEvery = .ok progress ∧
      first =
        { (ofOptions options.settled source sinks disk machine buffer progress warnings).opened with
        sinks := ((sinks.enablePass options.passThrough).writePass bytes).state, journal } := by
  obtain ⟨r, hprepare, hbegin⟩ := h
  obtain ⟨o, warnings, buffer, progress, hvalidate, hbuffer, hprogress, rfl⟩ := prepare_ok hprepare
  obtain ⟨rfl, hsize, _, _⟩ := Options.validate_ok hvalidate
  have hpassing :=
    passing_begin (ofOptions options.settled source sinks disk machine buffer progress warnings)
  rw [hbegin] at hpassing
  cases hpassing with
  | @passed journal _ _ => exact ⟨warnings, buffer, progress, _, journal, hbuffer, hsize,
    hprogress, rfl⟩

theorem Starts.files {first : Relay} (h : Starts options source sinks disk machine first) :
    first.sinks.files = sinks.files ∧ first.disk = disk := by
  obtain ⟨_, _, _, bytes, _, _, _, _, rfl⟩ := h.eq
  exact ⟨(Sinks.files_writePass _ bytes).trans (files_enablePass sinks _), rfl⟩

theorem Starts.ledger {first : Relay} (h : Starts options source sinks disk machine first) :
    Ledger options.settled [] [] first := by
  obtain ⟨_, hprepare, hbegin⟩ := h
  exact (ledger_begin hprepare hbegin).1

/-- What a computation comes to, with a property of it that was computed along. -/
theorem exists_ok {ε α : Type} {x : Except ε α} {p : α → Bool} (h : x.toOption.any p) :
    ∃ a, x = .ok a ∧ p a := by
  rcases x with e | a
  · cases h
  · exact ⟨a, rfl, h⟩

/-- The course of a run: no relay can be made; its start escape is not accepted; it halts in one of
    its turns; or it is done and gets to closing. -/
inductive Course (options : Options) (source : Source) (sinks : Sinks) (disk : Disk)
    (machine : Machine) (result : Outcome) : Prop where
  | unprepared {e : RelayError} {warnings : List Event}
      (hprepare : prepare options source sinks disk machine = .error (e, warnings))
      (hresult : result = ⟨.error e, warnings.toArray, 0, disk⟩) :
        Course options source sinks disk machine result
  | unopened {r : Relay} {halt : Halt}
    (hprepare : prepare options source sinks disk machine = .ok r)
      (hbegin : r.begin = .error halt) (hresult : result = outcome (.error halt)) :
      Course options source sinks disk machine result
  | halted {first mid : Relay} {before : Bytes} {halt : Halt}
    (hstarts : Starts options source sinks disk machine first)
      (hreaches : Reaches first before mid) (hbusy : mid.isDone = false)
      (hturn : mid.turn = .error halt)
      (hinput : runInput options source sinks disk machine = before ++ mid.arrival)
      (hresult : result = outcome (.error halt)) : Course options source sinks disk machine result
  | closed {first last : Relay} (hstarts : Starts options source sinks disk machine first)
      (hreaches : Reaches first (runInput options source sinks disk machine) last)
      (hdone : last.isDone)
      (hresult : result = outcome last.finish) : Course options source sinks disk machine result

/-- **The course of every run that comes to an end.** -/
theorem course {result : Outcome} (hrun : run options source sinks disk machine = some result) :
    Course options source sinks disk machine result := by
  rw [run_eq] at hrun
  rcases hprepare : prepare options source sinks disk machine with ⟨e, warnings⟩ | r
  · rw [hprepare] at hrun
    cases hrun
    exact .unprepared hprepare rfl
  · rw [hprepare] at hrun
    dsimp only at hrun
    unfold complete at hrun
    rcases hbegin : r.begin with halt | first
    · rw [hbegin] at hrun
      cases hrun
      exact .unopened hprepare hbegin rfl
    · have hinput : runInput options source sinks disk machine =
          inputOf first.enoughTurns first := by
        unfold runInput
        rw [hprepare]
        dsimp only
        rw [hbegin]
      have hstarts : Starts options source sinks disk machine first := ⟨r, hprepare, hbegin⟩
      have hbusy := (ledger_begin hprepare hbegin).2
      rw [hbegin] at hrun
      dsimp only at hrun
      -- a run that came to an end was given enough turns
      rcases hturns : turns first.enoughTurns first with _ | halt | last
      · rw [hturns] at hrun
        cases hrun
      · rw [hturns] at hrun
        cases hrun
        obtain ⟨before, mid, hreaches, hbusy', hfails, hread⟩ := turns_error hbusy hturns
        exact .halted hstarts hreaches hbusy' hfails (hinput.trans hread) rfl
      · rw [hturns] at hrun
        cases hrun
        obtain ⟨hreaches, hdone⟩ := turns_ok hbusy hturns
        exact .closed hstarts (hinput ▸ hreaches) hdone rfl

/-! ### What was passed on in the end -/

theorem giveUp_journal (r : Relay) (result : Except RelayError Report) :
    r.journal.Extends (r.giveUp result).journal [] :=
  .log_quiet _ (Sinks.passedBy_release r.sinks r.disk)

theorem giveUp_passed (r : Relay) (result : Except RelayError Report) :
    (r.giveUp result).journal.passed = r.journal.passed := by
  rw [(r.giveUp_journal result).passed_eq, List.append_nil]

theorem ready_of_isDone (hdone : r.isDone) : r.ready = [] := by
  have hempty := (Bool.and_eq_true_iff.1 hdone).2
  have hview : r.buffer.view = [] := by
    rw [← List.length_eq_zero_iff, ReadBuffer.length_view]
    exact beq_iff_eq.1 hempty
  exact List.prefix_nil.1 (hview ▸ r.ready_prefix)

/-- A relay that is done has released the payload of its input. -/
theorem Ledger.payload_eq (h : Ledger o input released r) (hdone : r.isDone) :
    o.payload input = .ok released := by
  have hended := (Bool.and_eq_true_iff.1 hdone).1
  rw [(h.complete hended).1, ready_of_isDone hdone, List.append_nil]

/-- The wire form of a payload and the finish escape make up the complete stream. -/
theorem stream_eq (h : Accounts o input released r) :
    o.stream released = o.wire released ++ if r.sinks.pass.isSome then r.finale else [] := by
  have hencoder := h.encoder
  rw [h.pass]
  unfold Options.stream Options.wire finale
  split
  · by_cases hframing : o.writeFraming
    · rw [if_pos hframing] at hencoder ⊢
      rw [if_pos hframing, hencoder]
      rfl
    · rw [if_neg hframing] at hencoder ⊢
      rw [if_neg hframing, hencoder, List.append_nil]
  · rfl

/-- What a relay that is done has passed on once it is closed: part of the complete stream, and all
    of it unless a sink failed. -/
theorem Ledger.finish (h : Ledger o input released r) (hdone : r.isDone) :
    AtEnd o input (outcome r.finish).journal ∧
    (outcome r.finish).journal.passed <+: o.stream released ∧
      ((∃ report, (outcome r.finish).result = .ok report ∧
        (outcome r.finish).journal.passed = o.stream released) ∨
        ∃ e, (outcome r.finish).result = .error (.sink e)) := by
  have hstream := stream_eq h.toAccounts
  have hatEnd := h.atEnd (Bool.and_eq_true_iff.1 hdone).1
  have hclosing := r.closing
  generalize r.finish = result at hclosing ⊢
  cases hclosing with
  | @refused e encoder journal part hwrite hpart hpass hjournal =>
    have hextends := hjournal.trans (giveUp_journal
      { r with encoder, sinks := (r.sinks.writePass r.finale).state, journal } (.error (.sink e)))
    refine ⟨hatEnd.extends hextends, ?_, Or.inr ⟨e, rfl⟩⟩
    rw [hstream, if_pos hpass, ← h.passed]
    change (giveUp { r with encoder, sinks := (r.sinks.writePass r.finale).state, journal }
      _).journal.passed <+: _
    rw [giveUp_passed, hjournal.passed_eq]
    exact (List.prefix_append_right_inj _).2 hpart
  | @notClosed e encoder sinks disk journal _ _ _ hjournal =>
    -- all of the stream was passed on before the files were closed
    have hextends :=
      hjournal.trans (giveUp_journal { r with encoder, sinks, disk, journal } (.error (.sink e)))
    refine ⟨hatEnd.extends hextends, ?_, Or.inr ⟨e, rfl⟩⟩
    rw [hstream, ← h.passed]
    change (giveUp { r with encoder, sinks, disk, journal } (.error (.sink e))).journal.passed <+: _
    refine ⟨[], ?_⟩
    rw [giveUp_passed, hjournal.passed_eq, List.append_nil]
  | @closed encoder sinks disk journal _ _ _ hjournal =>
    have hextends :=
      hjournal.trans (giveUp_journal { r with encoder, sinks, disk, journal } (.ok r.report))
    have hpassed : (giveUp { r with encoder, sinks, disk, journal } (.ok r.report)).journal.passed =
        o.stream released := by
      rw [giveUp_passed, hjournal.passed_eq, hstream, ← h.passed]
    exact ⟨hatEnd.extends hextends, hpassed ▸ List.prefix_rfl, Or.inl ⟨r.report, rfl, hpassed⟩⟩

/-- What a run can come to. It halts before its last turn is over, and has passed on part of the
    wire form of some payload at most; or it has read and released everything. -/
inductive Ending (options : Options) (source : Source) (sinks : Sinks) (disk : Disk)
    (machine : Machine) (result : Outcome) : Prop where
  | halted {e : RelayError} {payload : Bytes} (hresult : result.result = .error e)
      (hpassed : result.journal.passed <+: options.settled.wire payload) :
      Ending options source sinks disk machine result
  | closed {first last : Relay} {released : Bytes}
    (hstarts : Starts options source sinks disk machine first)
      (hreaches : Reaches first (runInput options source sinks disk machine) last)
      (hdone : last.isDone)
      (hledger : Ledger options.settled (runInput options source sinks disk machine) released last)
      (hresult : result = outcome last.finish) : Ending options source sinks disk machine result

/-- **What every run that comes to an end can come to.** -/
theorem run_ending {result : Outcome} (hrun : run options source sinks disk machine = some result) :
    Ending options source sinks disk machine result := by
  cases course hrun with
  | @unprepared e warnings hprepare hresult =>
    subst hresult
    have hquiet : Journal.passed warnings.toArray = [] := (prepare_error hprepare).1
    have hpassed : Journal.passed warnings.toArray <+: options.settled.wire [] := by
      rw [hquiet]
      exact List.nil_prefix
    exact .halted rfl hpassed
  | unopened hprepare hbegin hresult =>
    subst hresult
    have hpassed := (begin_error hprepare hbegin).2
    rw [← giveUp_passed] at hpassed
    exact .halted rfl hpassed
  | halted hstarts hreaches hbusy hturn _ hresult =>
    subst hresult
    obtain ⟨released, hmid⟩ := hreaches.ledger hstarts.ledger
    obtain ⟨payload, hpassed⟩ := hmid.turn_error hbusy hturn
    rw [← giveUp_passed] at hpassed
    exact .halted rfl hpassed
  | closed hstarts hreaches hdone hresult =>
    obtain ⟨released, hlast⟩ := hreaches.ledger hstarts.ledger
    exact .closed hstarts hreaches hdone hlast hresult

end Relay

end StreamRelay
