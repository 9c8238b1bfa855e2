/-
  StreamRelay/Sink/Spool.lean
  ===========================
  **An open output file and its write buffer.**

  Small blocks collect in a buffer of 8192 bytes. A block that does not fit next to what is held
  makes the spool store that first; a block as large as the buffer is never held but stored at
  once. A store may be answered in parts and fail after some of them: what is held and was not
  stored stays held, and the next flush goes on with it.
-/
import StreamRelay.Disk
import StreamRelay.Sink.Outlet

namespace StreamRelay

def spoolSize : Nat := 8192

/-- An open file: where it is, how the writes to come are answered, the offset of the next store,
    and the bytes held back. -/
structure Spool where
  target : Disk.Target
  answers : List WriteStep
  offset : Nat
  held : Bytes
deriving DecidableEq, Repr

namespace Spool

def start (target : Disk.Target) (answers : List WriteStep) : Spool := ⟨target, answers, 0, []⟩

structure Outcome where
  result : Except Fault Unit
  spool : Spool
  disk : Disk
  events : List Event

/-- Store bytes at the spool's offset, past the buffer, as far as they are accepted. -/
def store (s : Spool) (disk : Disk) (refusal : Fault) (bytes : Bytes) : Outcome :=
  let offered := offer refusal bytes s.answers
  let s := { s with answers := offered.answers }
  match disk.write s.target s.offset offered.accepted with
  | .ok disk =>
    ⟨offered.result, { s with offset := s.offset + offered.accepted.length }, disk,
      s.target.events offered.accepted⟩
  | .error fault => ⟨.error fault, s, disk, []⟩

/-- **Store what is held.** What could not be stored stays held. -/
def flush (s : Spool) (disk : Disk) : Outcome :=
  let o := s.store disk .nothingStored s.held
  { o with spool := { o.spool with held := s.held.drop (o.spool.offset - s.offset) } }

/-- Hold or store a block, given that what was held before is out of its way. -/
def place (s : Spool) (disk : Disk) (bytes : Bytes) : Outcome :=
  if spoolSize ≤ bytes.length then s.store disk .nothingAccepted bytes
  else ⟨.ok (), { s with held := s.held ++ bytes }, disk, []⟩

def write (s : Spool) (disk : Disk) (bytes : Bytes) : Outcome :=
  if spoolSize - s.held.length < bytes.length then
    let o := s.flush disk
    match o.result with
    | .ok () =>
      let p := o.spool.place o.disk bytes
      { p with events := o.events ++ p.events }
    | .error _ => o
  else s.place disk bytes

end Spool

end StreamRelay
