/-
  StreamRelay/Relay.lean
  ======================
  **The relay: one input, fanned out to all sinks.**

  A relay works in turns. A turn reads at most once, has the decoder vouch for what it can, asks
  the limiter how much may be released, and writes that much of the front of the buffer to every
  sink. The relay is done when the input is at its end and the buffer is empty.

  `validated` counts the bytes at the front of the buffer that the decoder has vouched for; only
  these are released. The decoder is shown the bytes behind them, so escapes are taken out once
  even if releases lag behind reads. Without a decoder everything buffered may be released.
-/
import StreamRelay.Digest.MD5
import StreamRelay.Framing.Decoder
import StreamRelay.Framing.Encoder
import StreamRelay.Limiter
import StreamRelay.Options
import StreamRelay.ReadBuffer
import StreamRelay.Report.Progress
import StreamRelay.Sink.Sinks
import StreamRelay.Source

namespace StreamRelay

/-! ### Failures -/

inductive RelayError where
  | config (e : ConfigError)
  | allocation (bytes : Nat)
  | wait (fault : Fault)
  | read (fault : Fault)
  | framing (e : Framing.FramingError)
  | sink (e : SinkError)
  | overflow (e : Overflow)
deriving DecidableEq, Repr

def RelayError.message : RelayError → String
  | .config e => e.message
  | .allocation bytes => "could not allocate " ++ toString bytes ++ " bytes for buffer"
  | .wait fault => "waiting for input error: " ++ fault.message
  | .read fault => "read on input error: " ++ fault.message
  | .framing e => e.message
  | .sink e => e.message
  | .overflow e => e.message

/-- The fault of an operation that is behind a failure, if there is one. -/
def RelayError.fault? : RelayError → Option Fault
  | .wait fault => some fault
  | .read fault => some fault
  | .sink e => some e.fault
  | _ => none

/-! ### State -/

/-- What a run finds on the system: requests for `memory` bytes or more are refused, and its turns
    look for a due rate line at the moments `instants`, one after the other. -/
structure Machine where
  memory : Nat
  instants : List Duration
deriving DecidableEq, Repr

/-- A relay at work. Moments on `clock` are counted from its start; `instants` are the moments for
    the turns to come, and without one a turn does not look for a rate line. -/
structure Relay where
  options : Options
  source : Source
  sinks : Sinks
  disk : Disk
  memory : Nat
  clock : Duration
  instants : List Duration
  buffer : ReadBuffer
  decoder : Option Framing.Decoder
  encoder : Option Framing.Encoder
  limiter : Option Limiter
  digest : Option Digest.Absorber
  progress : Progress
  validated : Nat
  ended : Bool
  bytesRead : Nat
  bytesReleased : Nat
  journal : Journal

/-- A relay that failed, as it stood when it did. -/
structure Halt where
  error : RelayError
  relay : Relay

namespace Relay

def log (r : Relay) (events : List Event) : Relay := { r with journal := r.journal ++ events }

def logProgress (r : Relay) (text : String) : Relay :=
  if text.isEmpty then r else r.log [.progressed text]

def pause (r : Relay) (span : Duration) : Relay :=
  if span = 0 then r else { r with clock := r.clock + span }.log [.paused span]

/-- The input is at its end and everything is released. -/
def isDone (r : Relay) : Bool := r.ended && r.buffer.isEmpty

/-! ### Reading -/

/-- The most bytes that a read may bring: up to the cap on the input if there is one. -/
def wanted (r : Relay) : Nat :=
  if r.options.stopAfter = 0 then r.buffer.capacity else r.options.stopAfter - r.bytesRead

def take (r : Relay) (want : Nat) (bytes : Bytes) : Except Halt Relay :=
  let r := { r with buffer := r.buffer.append bytes }.log [.read want (.bytes bytes.length)]
  match addCount? r.bytesRead bytes.length with
  | .error e => .error ⟨.overflow e, r⟩
  | .ok bytesRead =>
    let ended := decide (0 < r.options.stopAfter ∧ r.options.stopAfter ≤ bytesRead)
    .ok { r with bytesRead, ended }

def readInput (r : Relay) : Except Halt Relay :=
  let (buffer, want) := r.buffer.spare r.wanted
  let answer := r.source.read r.disk want
  let r := { r with buffer, source := answer.source }
  match Duration.add? r.clock answer.elapsed with
  | .error e => .error ⟨.overflow e, r⟩
  | .ok clock =>
    let r := { r with clock }
    match answer.reading with
    | .bytes bytes => r.take want bytes
    | .endOfInput => .ok ({ r with ended := true }.log [.read want .endOfInput])
    | .notReady => .ok (r.log [.read want .notReady])
    | .failed fault => .error ⟨.read fault, r.log [.read want .failed]⟩

/-- Read, after waiting for input if reads must not block. A wait may end without input. -/
def awaitInput (r : Relay) : Except Halt Relay :=
  if r.options.nonBlocking then
    match r.source.wait with
    | (.error fault, source) => .error ⟨.wait fault, { r with source }.log [.waitFailed]⟩
    | (.ok isReady, source) =>
      let r := { r with source }.log [.waited isReady]
      if isReady then r.readInput else .ok r
  else r.readInput

/-- **Attempt one read.** A full buffer is grown if everything is to be read first, and not read
    into otherwise. -/
def fill (r : Relay) : Except Halt Relay :=
  if r.buffer.isFull then
    if r.options.readAll then
      match r.buffer.grow? r.memory with
      | .error bytes => .error ⟨.allocation bytes, r⟩
      | .ok buffer => ({ r with buffer }.log [.grew buffer.capacity]).awaitInput
    else .ok r
  else r.awaitInput

/-! ### Vouching -/

/-- **Have the decoder vouch for what it can** of the bytes behind those it vouched for before. -/
def validate (r : Relay) : Except Halt Relay :=
  match r.decoder with
  | none => .ok r
  | some decoder =>
    let (decoder, outcome) := decoder.decode (r.buffer.viewFrom r.validated) r.ended
    let r := { r with decoder := some decoder }
    match outcome with
    | .error e => .error ⟨.framing e, r⟩
    | .ok decoded =>
      let buffer := r.buffer.overwrite r.validated decoded.window
      .ok { r with
        buffer := buffer.truncate (r.validated + decoded.window.length)
        validated := r.validated + decoded.safe }

/-- The bytes at the front of the buffer that may be released now: none before the end if everything
    is to be read first. -/
def releasable (r : Relay) : Nat :=
  if r.options.readAll && !r.ended then 0
  else
    match r.decoder with
    | none => r.buffer.length
    | some _ => r.validated

/-! ### Releasing -/

/-- Account for a release that reached every sink: report it and drop its bytes from the buffer. -/
def drop (r : Relay) (released : Nat) : Except Halt Relay :=
  match r.progress.advance? released with
  | .error e => .error ⟨.overflow e, r⟩
  | .ok (text, progress) =>
    let r := { r with
      progress
      buffer := r.buffer.consume released
      validated := r.validated - released }.logProgress text
    match addCount? r.bytesReleased released with
    | .error e => .error ⟨.overflow e, r⟩
    | .ok bytesReleased => .ok { r with bytesReleased }

/-- **Write the first `permit` bytes of the buffer to every sink and drop them.** If the
    pass-through output is framed, bytes that may become a marker stay in the buffer. Gives the
    number of bytes released. -/
def release (r : Relay) (permit : Nat) : Except Halt (Relay × Nat) :=
  let last := r.ended && permit == r.buffer.length
  let window := r.buffer.viewTo permit
  let e := match r.encoder with
    | some _ => Framing.encode window last
    | none => ⟨window, permit⟩
  let passing := r.sinks.writePass e.out
  let r := { r with sinks := passing.state }.log passing.events
  match passing.result with
  | .error fault => .error ⟨.sink fault, r⟩
  | .ok () =>
    let data := window.take e.used
    let storing := r.sinks.writeFiles r.disk data
    let r := { r with
      digest := r.digest.map (Digest.Absorber.absorb · data)
      sinks := storing.state.1
      disk := storing.state.2 }.log storing.events
    match storing.result with
    | .error fault => .error ⟨.sink fault, r⟩
    | .ok () => ((r.log [.released e.used]).drop e.used).map fun r => (r, e.used)

/-- Release what may be released, at the limiter's pace. After a grant that released nothing the
    relay pauses, so that the next grant can reach past the bytes that had to stay. -/
def releaseReady (r : Relay) : Except Halt Relay :=
  match r.limiter with
  | none => if r.releasable = 0 then .ok r else (r.release r.releasable).map (·.1)
  | some limiter =>
    let available := r.releasable
    match limiter.ask? r.clock available with
    | .error e => .error ⟨.overflow e, r⟩
    | .ok grant =>
      let r := r.pause grant.pause
      if grant.permit = 0 then .ok r
      else
        match (r.log [.granted grant.permit available limiter.released]).release grant.permit with
        | .error halt => .error halt
        | .ok (r, released) =>
          match limiter.record? released with
          | .error e => .error ⟨.overflow e, r⟩
          | .ok limiter =>
            let r := { r with limiter := some limiter }
            .ok (if released = 0 then (r.log [.stalled limiter.released]).pause quantum else r)

/-! ### Turns -/

/-- Look for a due rate line, if this turn has a moment for it. -/
def tick (r : Relay) : Except Halt Relay :=
  match r.instants with
  | [] => .ok r
  | now :: instants =>
    let (text, outcome) := r.progress.tick? now
    let r := { r with instants }.logProgress text
    match outcome with
    | .error e => .error ⟨.overflow e, r⟩
    | .ok progress => .ok { r with progress }

/-- **One turn**: read once unless the input is at its end, vouch, release, and report. -/
def turn (r : Relay) : Except Halt Relay := do
  let r ← if r.ended then .ok r else r.fill
  let r ← r.validate
  let r ← r.releaseReady
  r.tick

/-- Take turns until the relay is done or fails; `none` if that takes more turns than are given. -/
def turns : Nat → Relay → Option (Except Halt Relay)
  | 0, _ => none
  | n + 1, r =>
    match r.turn with
    | .error halt => some (.error halt)
    | .ok r => if r.isDone then some (.ok r) else turns n r

/-- Turns that are enough: one for each answer of the source, one for each byte read and for each
    byte released, and the pauses that the slowest limiter needs to let the payload and the longest
    withheld run of bytes through. -/
def enoughTurns (r : Relay) : Nat := r.source.answers + 12 * (r.source.extent r.disk + 20)

/-! ### Opening and closing -/

def passOnly (r : Relay) (bytes : Bytes) : Except Halt Relay :=
  let e := r.sinks.writePass bytes
  let r := { r with sinks := e.state }.log e.events
  match e.result with
  | .error fault => .error ⟨.sink fault, r⟩
  | .ok () => .ok r

def begin (r : Relay) : Except Halt Relay :=
  match r.encoder with
  | none => .ok r
  | some encoder => { r with encoder := some encoder.begin.2 }.passOnly encoder.begin.1

def finishFraming (r : Relay) : Except Halt Relay :=
  match r.encoder with
  | none => .ok r
  | some encoder => { r with encoder := some encoder.finish.2 }.passOnly encoder.finish.1

def closeSinks (r : Relay) : Except Halt Relay :=
  let e := r.sinks.close r.disk
  let r := { r with sinks := e.state.1, disk := e.state.2 }.log e.events
  match e.result with
  | .error fault => .error ⟨.sink fault, r⟩
  | .ok () => .ok r

/-- **Close a relay that is done**: the progress line, the finish escape, then every sink. A
    progress line that cannot be closed is let be. -/
def finish (r : Relay) : Except Halt Relay := do
  let r ← (r.logProgress r.progress.finish.1).finishFraming
  r.closeSinks

/-- The relay over valid options and an empty buffer, before its first turn. -/
def ofOptions (options : Options) (source : Source) (sinks : Sinks) (disk : Disk)
    (machine : Machine) (buffer : ReadBuffer) (progress : Progress) (warnings : List Event) :
    Relay where
  options := options
  source := source
  sinks := sinks.enablePass options.passThrough
  disk := disk
  memory := machine.memory
  clock := 0
  instants := machine.instants
  buffer := buffer
  decoder := if options.readFraming then some .notStarted else none
  encoder := if options.writeFraming then some .fresh else none
  limiter := if options.throttle = 0 then none else some (.start options.throttle 0)
  digest := if options.digest then some .empty else none
  progress := progress
  validated := 0
  ended := false
  bytesRead := 0
  bytesReleased := 0
  journal := warnings.toArray

def complete (r : Relay) : Option (Except Halt Relay) :=
  match r.begin with
  | .error halt => some (.error halt)
  | .ok r => (turns r.enoughTurns r).map fun outcome => outcome.bind finish

/-! ### Whole runs -/

/-- The totals of a run that succeeded. Bytes read include the framing of the input; bytes released
    do not. -/
structure Report where
  bytesRead : Nat
  bytesReleased : Nat
  elapsed : Duration
  digest : Option Digest.Signature
deriving DecidableEq, Repr

/-- How a run ended: its report or failure, all that happened, the time at its end, and the disk
    once the sinks were given up. -/
structure Outcome where
  result : Except RelayError Report
  journal : Journal
  clock : Duration
  disk : Disk

def report (r : Relay) : Report :=
  ⟨r.bytesRead, r.bytesReleased, r.clock, r.digest.map (·.signature)⟩

def giveUp (r : Relay) (result : Except RelayError Report) : Outcome :=
  let (disk, events) := r.sinks.release r.disk
  ⟨result, (r.log events).journal, r.clock, disk⟩

def outcome : Except Halt Relay → Outcome
  | .ok r => r.giveUp (.ok r.report)
  | .error halt => halt.relay.giveUp (.error halt.error)

/-- **Relay a whole stream.** -/
def run (options : Options) (source : Source) (sinks : Sinks) (disk : Disk) (machine : Machine) :
    Option Outcome :=
  match options.validate with
  | .error e => some ⟨.error (.config e), #[], 0, disk⟩
  | .ok (options, warnings) =>
    match ReadBuffer.ofCapacity? machine.memory options.bufferSize with
    | .error bytes => some ⟨.error (.allocation bytes), warnings.toArray, 0, disk⟩
    | .ok buffer =>
      match Progress.start? .working options.dotEvery options.rateEvery with
      | .error e => some ⟨.error (.overflow e), warnings.toArray, 0, disk⟩
      | .ok progress =>
        let r := ofOptions options source sinks disk machine buffer progress warnings
        r.complete.map outcome

end Relay

end StreamRelay
