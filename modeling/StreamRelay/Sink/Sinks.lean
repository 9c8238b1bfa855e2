/-
  StreamRelay/Sink/Sinks.lean
  ===========================
  **Every destination of the relayed bytes.**

  The pass-through output takes the stream, framed or not; the files take the payload. A block
  goes to the files in order, and the first failure ends the operation: files after it have not
  seen the block.
-/
import StreamRelay.Sink.FileSink
import StreamRelay.Sink.Outlet
import StreamRelay.Text.Quoted

namespace StreamRelay

/-- The pass-through output, if there is one, and the output files. With `flushEach`, every write is
    stored at once. -/
structure Sinks where
  pass : Option Outlet
  files : List FileSink
  flushEach : Bool
deriving Repr

def standardOutput : String := "standard output"

namespace Sinks

/-- Switch pass-through on or off. Switched on without an output, it goes to one that accepts
    everything. -/
def enablePass (s : Sinks) (enabled : Bool) : Sinks :=
  if enabled then { s with pass := some (s.pass.getD .unlimited) } else { s with pass := none }

/-! ### Writing -/

def flushPass (s : Sinks) : Effect SinkError Sinks :=
  match s.pass with
  | none => .quiet s
  | some outlet =>
    let e := outlet.flush
    ⟨{ s with pass := some e.state }, e.events, e.result.mapError (.flush standardOutput)⟩

/-- Write a block to the pass-through output. An empty block is not written and not flushed. -/
def writePass (s : Sinks) (bytes : Bytes) : Effect SinkError Sinks :=
  match s.pass with
  | none => .quiet s
  | some outlet =>
    if bytes.isEmpty then .quiet s
    else
      let e := outlet.write bytes
      let s := { s with pass := some e.state }
      match e.result with
      | .error fault => ⟨s, e.events, .error (.write standardOutput fault)⟩
      | .ok () =>
        if s.flushEach then
          let f := s.flushPass
          { f with events := e.events ++ f.events }
        else ⟨s, e.events, .ok ()⟩

def eachFile (act : FileSink → Disk → Effect SinkError (FileSink × Disk)) :
    List FileSink → Disk → Effect SinkError (List FileSink × Disk)
  | [], disk => .quiet ([], disk)
  | file :: files, disk =>
    let first := act file disk
    match first.result with
    | .error e => ⟨(first.state.1 :: files, first.state.2), first.events, .error e⟩
    | .ok () =>
      let rest := eachFile act files first.state.2
      ⟨(first.state.1 :: rest.state.1, rest.state.2), first.events ++ rest.events, rest.result⟩

/-- Write a block to every file; the first write opens the file, an empty block too. -/
def writeFiles (s : Sinks) (disk : Disk) (bytes : Bytes) : Effect SinkError (Sinks × Disk) :=
  let e := eachFile (fun file disk => file.write disk bytes s.flushEach) s.files disk
  ⟨({ s with files := e.state.1 }, e.state.2), e.events, e.result⟩

/-- **Flush and close**: the files in order, then the pass-through output. -/
def close (s : Sinks) (disk : Disk) : Effect SinkError (Sinks × Disk) :=
  let e := eachFile FileSink.close s.files disk
  let s := { s with files := e.state.1 }
  match e.result with
  | .error fault => ⟨(s, e.state.2), e.events, .error fault⟩
  | .ok () =>
    let f := s.flushPass
    ⟨(f.state, e.state.2), e.events ++ f.events, f.result⟩

def releaseFiles : List FileSink → Disk → Disk × List Event
  | [], disk => (disk, [])
  | file :: files, disk =>
    let (disk, events) := file.release disk
    let (disk, more) := releaseFiles files disk
    (disk, events ++ more)

/-- Give all sinks up: each file stores what it holds as far as that can be done. Gives the disk
    after it and what was emitted. -/
def release (s : Sinks) (disk : Disk) : Disk × List Event := releaseFiles s.files disk

/-! ### Description -/

def stateName : FileState → String
  | .unopened => "unopened"
  | .opened _ => "open"
  | .failed => "failed"
  | .closed => "closed"

def describeFile (file : FileSink) : String :=
  "FileSink \x7b path: " ++ Text.quoted file.path ++ ", state: \"" ++ stateName file.state
    ++ "\" \x7d"

/-- **The sinks as one line of text**: whether there is a pass-through output, each file with its
    path and state, and whether writes are flushed. -/
def describe (s : Sinks) : String :=
  "Sinks \x7b pass: " ++ toString s.pass.isSome ++ ", files: ["
    ++ ", ".intercalate (s.files.map describeFile) ++ "], flush_each_write: "
    ++ toString s.flushEach ++ " \x7d"

end Sinks

end StreamRelay
