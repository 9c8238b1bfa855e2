/-
  StreamRelay/Disk/Place.lean
  ===========================
  **What a path leads to.**

  Besides folders and regular files there are devices: they discard what is written, have no space
  for any of it, or pass it on to a standard output, or refuse it, and some give zeros without end.
-/
import StreamRelay.Disk.Path
import StreamRelay.Fault
import StreamRelay.Journal

namespace StreamRelay.Disk

inductive Device where
  /-- Empty to read; discards what is written. -/
  | null
  /-- Gives zeros without end; discards what is written. -/
  | zero
  /-- Gives zeros without end; has no space for what is written. -/
  | full
  /-- A standard output of the program: passes on what is written. -/
  | stream (stream : Stream)
  /-- The terminal of a program that has none: cannot be opened. -/
  | terminal
  /-- The program's own file: cannot be opened for writing while it runs. -/
  | program
  /-- What the system tells of itself or of a program: refuses what is written. -/
  | account (refusal : Fault)
deriving DecidableEq, Repr

/-- What is at the end of a trail. A place that is missing has the trail of what could be created
    there. -/
inductive Place where
  | folder (trail : Trail)
  | file (name : String)
  | device (device : Device)
  | missing (trail : Trail)
deriving DecidableEq, Repr

/-- Why nothing can be created under a name with a slash behind it, in what the names before it lead
    to. -/
def Place.refusal : Place → Fault
  | .folder _ => .isFolder
  | .missing _ => .noSuchFile
  | _ => .notFolder

inductive Target where
  | file (name : String)
  | device (device : Device)
deriving DecidableEq, Repr

/-- What comes of the bytes that a target took, beside a change of the disk. -/
def Target.events : Target → Bytes → List Event
  | .device (.stream stream), b :: rest => [.emitted stream (b :: rest)]
  | _, _ => []

end StreamRelay.Disk
