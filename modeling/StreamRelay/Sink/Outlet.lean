/-
  StreamRelay/Sink/Outlet.lean
  ============================
  **The pass-through output.**

  A write may be accepted whole or in part, be interrupted, or fail; how the writes to an output
  are answered is laid down step by step, and after the last step everything is accepted. Writing
  a block goes on until all of it is accepted.
-/
import StreamRelay.Fault
import StreamRelay.Journal

namespace StreamRelay

/-! ### Offering a block -/

/-- How one write is answered: all bytes accepted, at most `limit` of them, an interruption, or a
    fault. -/
inductive WriteStep where
  | acceptAll
  | accept (limit : Nat)
  | interrupted
  | fail (fault : Fault)
deriving DecidableEq, Repr

/-- What came of a block that was offered: the part accepted by each write, the answers left, and
    the outcome. -/
structure Offer where
  parts : List Bytes
  answers : List WriteStep
  result : Except Fault Unit

def Offer.accepted (o : Offer) : Bytes := o.parts.flatten

/-- Offer a block until all of it is accepted: an interrupted write is made again, and one that
    accepts nothing fails, with `refusal`. Nothing is offered if the block is empty. -/
def offer (refusal : Fault) (bytes : Bytes) (answers : List WriteStep) : Offer :=
  if bytes.isEmpty then ⟨[], answers, .ok ()⟩
  else
    match answers with
    | [] => ⟨[bytes], [], .ok ()⟩
    | .acceptAll :: answers => ⟨[bytes], answers, .ok ()⟩
    | .accept limit :: answers =>
      if limit = 0 then ⟨[[]], answers, .error refusal⟩
      else
        let o := offer refusal (bytes.drop limit) answers
        { o with parts := bytes.take limit :: o.parts }
    | .interrupted :: answers => offer refusal bytes answers
    | .fail fault :: answers => ⟨[], answers, .error fault⟩
termination_by structural answers

/-! ### Outlets -/

inductive FlushStep where
  | done
  | fail (fault : Fault)
deriving DecidableEq, Repr

/-- The answers that an outlet has in store; it accepts everything after the last. -/
structure Outlet where
  writes : List WriteStep
  flushes : List FlushStep
deriving DecidableEq, Repr

namespace Outlet

def unlimited : Outlet := ⟨[], []⟩

def write (o : Outlet) (bytes : Bytes) : Effect Fault Outlet :=
  let offered := offer .nothingAccepted bytes o.writes
  ⟨{ o with writes := offered.answers }, offered.parts.map .wrote, offered.result⟩

/-- Pass on what was written; an interruption counts as a failure here. -/
def flush (o : Outlet) : Effect Fault Outlet :=
  match o.flushes with
  | [] => ⟨o, [.flushed], .ok ()⟩
  | .done :: flushes => ⟨{ o with flushes }, [.flushed], .ok ()⟩
  | .fail fault :: flushes => ⟨{ o with flushes }, [], .error fault⟩

end Outlet

end StreamRelay
