/-
  StreamRelay/Clock.lean
  ======================
  **Spans of time.**

  A span of time is a count of nanoseconds. A moment is the span since the clock was started, so
  pacing and reporting compare plain numbers. Neither can be arbitrarily large: a span holds its
  whole seconds in 64 bits, and the system's clock counts its own in 63.
-/
import StreamRelay.Number.Binary64
import StreamRelay.Overflow

namespace StreamRelay

abbrev Duration := Nat

namespace Duration

def perSecond : Nat := 1000000000

def ofParts (seconds nanos : Nat) : Duration := seconds * perSecond + nanos

def seconds (d : Duration) : Nat := d / perSecond

/-- The nanoseconds of a span beyond its whole seconds. -/
def nanos (d : Duration) : Nat := d % perSecond

/-- A span in seconds as a binary64 number: whole seconds and fraction are each rounded, and so is
    their sum. -/
def toBinary64 (d : Duration) : Binary64 :=
  (Binary64.ofNat d.seconds).add ((Binary64.ofNat d.nanos).div (Binary64.ofNat perSecond))

/-! ### Limits -/

/-- Every span is shorter than this. -/
def limit : Duration := Nat.pow 2 64 * perSecond

def secondsBefore : Nat := 1000

/-- Every moment of a run is before this one. -/
def horizon : Duration := (Nat.pow 2 63 - secondsBefore) * perSecond

def add? (a b : Duration) : Except Overflow Duration :=
  if a + b < limit then .ok (a + b) else .error .span

/-- The moment that lies a span past the start. -/
def moment? (span : Duration) : Except Overflow Duration :=
  if span < horizon then .ok span else .error .moment

theorem moment?_of_lt {span : Duration} (h : span < horizon) : moment? span = .ok span := if_pos h

theorem moment?_of_le {span : Duration} (h : horizon ≤ span) : moment? span = .error .moment :=
  if_neg (Nat.not_lt.2 h)

theorem moment?_ok {span moment : Duration} (h : moment? span = .ok moment) :
    moment = span ∧ span < horizon := by
  unfold moment? at h
  split at h
  · next hsoon =>
    cases h
    exact ⟨rfl, hsoon⟩
  · cases h

end Duration

end StreamRelay
