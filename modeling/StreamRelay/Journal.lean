/-
  StreamRelay/Journal.lean
  ========================
  **What a run does to the world, event by event.**

  Every read, grant, write, flush, pause, warning and piece of progress is an event, in the order in
  which it happened. What reached an output is read off the events, so there is one account of a run
  and not one per output.
-/
import StreamRelay.Bytes
import StreamRelay.Clock

namespace StreamRelay

inductive ReadAnswer where
  | bytes (count : Nat)
  | endOfInput
  | notReady
  | failed
deriving DecidableEq, Repr

inductive Stream where
  | output
  | error
deriving DecidableEq, Repr

/-- One thing that happened. A buffer `grew` to a capacity; so many of the `available` bytes were
    `granted` after those `released` before; a run `stalled` after a grant that released nothing,
    with as many released in all; bytes are `emitted` by an output file that is itself one of the
    standard outputs; and a block of some size was `released` once every sink had taken it. -/
inductive Event where
  | waited (ready : Bool)
  | waitFailed
  | grew (capacity : Nat)
  | read (want : Nat) (answer : ReadAnswer)
  | granted (permit available released : Nat)
  | stalled (released : Nat)
  | paused (span : Duration)
  | wrote (bytes : Bytes)
  | flushed
  | opened (path : String)
  | emitted (stream : Stream) (bytes : Bytes)
  | released (count : Nat)
  | progressed (text : String)
  | warned (text : String)
deriving DecidableEq, Repr

abbrev Journal := Array Event

def Event.bytesRead : Event → Nat
  | .read _ (.bytes count) => count
  | _ => 0

def Event.passed : Event → Bytes
  | .wrote bytes => bytes
  | _ => []

def Event.progress : Event → String
  | .progressed text => text
  | _ => ""

def Event.pause : Event → Duration
  | .paused span => span
  | _ => 0

/-- All bytes that the pass-through output accepted. -/
def Journal.passed (j : Journal) : Bytes := j.toList.flatMap Event.passed

def Journal.progress (j : Journal) : String := String.join (j.toList.map Event.progress)

def Journal.paused (j : Journal) : Duration := (j.toList.map Event.pause).foldr (· + ·) 0

/-- What an operation leaves behind: the state after it, the events it caused, and whether it
    failed. An operation that fails has a state and events too, those up to the failure. -/
structure Effect (ε σ : Type) where
  state : σ
  events : List Event
  result : Except ε Unit

/-- An operation that succeeded without an event. -/
def Effect.quiet {ε σ : Type} (state : σ) : Effect ε σ := ⟨state, [], .ok ()⟩

end StreamRelay
