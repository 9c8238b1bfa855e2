/-
  StreamRelay/Report/Progress.lean
  ================================
  **Progress output: a dot per block released, and a rate line at intervals.**

  Dots depend on totals alone: bytes that do not fill a block are carried to the next release. A
  rate line is due once more than an interval has passed since the last one, or since the start;
  it shows the bytes released since then over the time since then.

  Progress never affects the relayed stream, so output that cannot be written is lost without a
  word; only closing the progress line reports a failure. But a total that cannot be counted, or a
  deadline at no moment, ends a run.
-/
import StreamRelay.Clock
import StreamRelay.Fault
import StreamRelay.Report.ByteCount

namespace StreamRelay

/-- Where progress is written to: it takes everything, or fails every write and every flush. -/
inductive ProgressOutlet where
  | working
  | broken (onWrite onFlush : Fault)
deriving DecidableEq, Repr

def ProgressOutlet.write : ProgressOutlet → String → Except Fault String
  | .working, text => .ok text
  | .broken onWrite _, _ => .error onWrite

def ProgressOutlet.flush : ProgressOutlet → Except Fault Unit
  | .working => .ok ()
  | .broken _ onFlush => .error onFlush

/-- Write a text and go on if it is refused. -/
def ProgressOutlet.offer (o : ProgressOutlet) (text : String) : String :=
  match o.write text with
  | .ok taken => taken
  | .error _ => ""

/-- The accounts of progress. Moments are counted from the moment progress was set up; `dotEvery`
    zero means no dots, `rateEvery` none means no rate lines. -/
structure Progress where
  outlet : ProgressOutlet
  dotEvery : Nat
  dotPending : Nat
  rateEvery : Option Duration
  nextRate : Option Duration
  total : Nat
  totalAtLastRate : Nat
deriving Repr

namespace Progress

/-- Progress before any release. The first rate line is due after one interval. -/
def start (outlet : ProgressOutlet) (dotEvery : Nat) (rateEvery : Option Duration) : Progress :=
  ⟨outlet, dotEvery, 0, rateEvery, rateEvery, 0, 0⟩

/-- Set up progress, unless the first rate line would be due at no moment. -/
def start? (outlet : ProgressOutlet) (dotEvery : Nat) (rateEvery : Option Duration) :
    Except Overflow Progress :=
  match rateEvery with
  | none => .ok (start outlet dotEvery none)
  | some every => (Duration.moment? every).map fun every => start outlet dotEvery (some every)

/-- Write a dot for each block that is due and take the block off, one after the other. Gives the
    text written, behind what was written before, and the bytes left. -/
def payDots (outlet : ProgressOutlet) (dotEvery due : Nat) (text : String) : String × Nat :=
  if 0 < dotEvery ∧ dotEvery ≤ due then
    payDots outlet dotEvery (due - dotEvery) (text ++ outlet.offer ".")
  else (text, due)
termination_by due
decreasing_by omega

/-- **Account for released bytes**, and write a dot for each block that they complete. -/
def advance? (p : Progress) (released : Nat) : Except Overflow (String × Progress) :=
  match addCount? p.total released with
  | .error e => .error e
  | .ok total =>
    if p.dotEvery = 0 then .ok ("", { p with total })
    else
      (addCount? p.dotPending released).map fun due =>
        let (text, dotPending) := payDots p.outlet p.dotEvery due ""
        (text, { p with total, dotPending })

/-- The rate of bytes over a span in whole bytes per second, computed in binary64 and cut to 64
    bits. -/
def rate (bytes : Nat) (span : Duration) : Nat :=
  clampCount ((Binary64.ofNat bytes).div span.toBinary64).floor

/-- The text of a rate line. It overwrites the line before it, and ends in blanks that cover a
    longer one. -/
def rateLine (rate total : Nat) : String :=
  "\rWriting at " ++ byteCount rate ++ " per sec (total " ++ byteCount total ++ ")      "

/-- **Write a rate line if one is due.** The deadline stands one interval after the last line, so
    the span since that line is the time past the deadline and one interval. The line is written
    before the next deadline is reckoned. -/
def tick? (p : Progress) (now : Duration) : String × Except Overflow Progress :=
  match p.rateEvery, p.nextRate with
  | some every, some next =>
    if now ≤ next then ("", .ok p)
    else
      let line :=
        rateLine (rate (p.total - p.totalAtLastRate) (now - next + every)) p.total
      (p.outlet.offer line, (Duration.moment? (now + every)).map fun next =>
        { p with nextRate := some next, totalAtLastRate := p.total })
  | _, _ => ("", .ok p)

/-- Close the progress line, if anything may stand on it, and pass it on. -/
def finish (p : Progress) : String × Except Fault Unit :=
  if p.rateEvery.isSome || 0 < p.dotEvery then
    match p.outlet.write "\n" with
    | .ok taken => (taken, p.outlet.flush)
    | .error fault => ("", .error fault)
  else ("", p.outlet.flush)

end Progress

end StreamRelay
