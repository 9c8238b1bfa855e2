/-
  StreamRelay/Sink/FileSink.lean
  ==============================
  **An output file that is opened by its first write.**

  A file that cannot be opened is reported once and skipped from then on. Writing to a file that
  failed or was closed does nothing and succeeds.
-/
import StreamRelay.Journal
import StreamRelay.Sink.Spool

namespace StreamRelay

inductive SinkError where
  | write (sink : String) (fault : Fault)
  | flush (sink : String) (fault : Fault)
deriving DecidableEq, Repr

def SinkError.message : SinkError → String
  | .write sink fault => "could not write block to " ++ sink ++ ": " ++ fault.message
  | .flush sink fault => "could not flush " ++ sink ++ ": " ++ fault.message

def SinkError.fault : SinkError → Fault
  | .write _ fault => fault
  | .flush _ fault => fault

inductive FileState where
  | unopened
  | opened (spool : Spool)
  | failed
  | closed
deriving DecidableEq, Repr

/-- An output file, and how the writes to it are answered once it is open. -/
structure FileSink where
  path : String
  answers : List WriteStep
  state : FileState
deriving DecidableEq, Repr

def cannotOpen (path : String) (fault : Fault) : String :=
  "cannot open(" ++ path ++ "): " ++ fault.message

namespace FileSink

def ofPath (path : String) (answers : List WriteStep := []) : FileSink :=
  ⟨path, answers, .unopened⟩

def hasFailed (s : FileSink) : Bool :=
  match s.state with
  | .failed => true
  | _ => false

def openIfNeeded (s : FileSink) (disk : Disk) : Effect SinkError (FileSink × Disk) :=
  match s.state with
  | .unopened =>
    match disk.create s.path with
    | .ok (target, disk) =>
      ⟨({ s with state := .opened (.start target s.answers) }, disk), [.opened s.path], .ok ()⟩
    | .error fault =>
      ⟨({ s with state := .failed }, disk), [.warned (cannotOpen s.path fault)], .ok ()⟩
  | _ => .quiet (s, disk)

def writeOpen (s : FileSink) (disk : Disk) (bytes : Bytes) (flush : Bool) :
    Effect SinkError (FileSink × Disk) :=
  match s.state with
  | .opened spool =>
    let o := spool.write disk bytes
    match o.result with
    | .error fault =>
      ⟨({ s with state := .opened o.spool }, o.disk), o.events, .error (.write s.path fault)⟩
    | .ok () =>
      if flush then
        let f := o.spool.flush o.disk
        ⟨({ s with state := .opened f.spool }, f.disk), o.events ++ f.events,
          f.result.mapError (.flush s.path)⟩
      else ⟨({ s with state := .opened o.spool }, o.disk), o.events, .ok ()⟩
  | _ => .quiet (s, disk)

/-- **Write a block**, opening the file if this is the first. -/
def write (s : FileSink) (disk : Disk) (bytes : Bytes) (flush : Bool) :
    Effect SinkError (FileSink × Disk) :=
  let opening := s.openIfNeeded disk
  let writing := opening.state.1.writeOpen opening.state.2 bytes flush
  { writing with events := opening.events ++ writing.events }

/-- **Store what is held and close.** A file whose last bytes cannot be stored stays open. -/
def close (s : FileSink) (disk : Disk) : Effect SinkError (FileSink × Disk) :=
  match s.state with
  | .opened spool =>
    let o := spool.flush disk
    match o.result with
    | .error fault =>
      ⟨({ s with state := .opened o.spool }, o.disk), o.events, .error (.flush s.path fault)⟩
    | .ok () => ⟨({ s with state := .closed }, o.disk), o.events, .ok ()⟩
  | _ => .quiet (s, disk)

/-- Give the file up: what is held is stored as far as that can be done. Gives the disk after it
    and what was emitted. -/
def release (s : FileSink) (disk : Disk) : Disk × List Event :=
  match s.state with
  | .opened spool =>
    let o := spool.flush disk
    (o.disk, o.events)
  | _ => (disk, [])

end FileSink

end StreamRelay
