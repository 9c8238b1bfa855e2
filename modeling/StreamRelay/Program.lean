/-
  StreamRelay/Program.lean
  ========================
  **The whole program, from the command line to the exit code.**

  A run is decided by the arguments, the bytes on standard input, the disk, and what the run meets
  on the system: how its reads and stores go, and when. It gives an exit code, what went to
  standard output and standard error, and the disk afterwards.
-/
import StreamRelay.CommandLine.Arguments
import StreamRelay.Relay
import StreamRelay.Sink.LineBuffer
import StreamRelay.Text.Record

namespace StreamRelay.Program

/-- What a run meets on the system: how the reads of its input go, and the stores to each output
    file. -/
structure System where
  machine : Machine
  reads : List ReadStep
  stores : String → List WriteStep

/-- A system with this much memory on which no read is cut short, no store is refused, and nothing
    looks at the clock. -/
def System.calm (memory : Nat) : System := ⟨⟨memory, []⟩, [], fun _ => []⟩

structure Invocation where
  arguments : List String
  standardInput : Bytes
  disk : Disk
  system : System

def Invocation.start (invocation : Invocation) : Disk :=
  invocation.disk.withStandardInput invocation.standardInput

/-- What a run of the program comes to. The journal has all that happened, in order; `traced` tells
    whether each step is reported, and with which cap on the input; `closing` is what is said on
    standard error after the last event. -/
structure Outcome where
  exitCode : Nat
  journal : Journal
  traced : Option Nat
  closing : String
  disk : Disk

/-! ### Messages -/

def name : String := "nullpipe"

/-- The one line that a fatal error leaves. A fault behind the error is told once more. -/
def fatalLine (message : String) (fault : Option Fault) : String :=
  let cause := match fault with
    | none => ""
    | some fault => ": " ++ fault.message
  name ++ ": " ++ message ++ cause ++ "\n"

def warning (text : String) : String := " WARN " ++ Text.record text ++ "\n"

/-- The record of a step of the relay, with `total` bytes read by then, under a cap on the input if
    that is not zero. -/
def trace (cap total : Nat) : Event → String
  | .waited _ => "TRACE input ready revents=1\n"
  | .grew capacity => "DEBUG grew read buffer capacity=" ++ toString capacity ++ "\n"
  | .read _ (.bytes count) =>
    let read := "TRACE read " ++ toString count ++ " bytes\n"
    if 0 < cap ∧ cap ≤ total then
      read ++ "DEBUG stop-after limit reached bytes=" ++ toString total ++ "\n"
    else read
  | .read _ .endOfInput => "DEBUG end of input bytes=" ++ toString total ++ "\n"
  | .read _ .notReady => "TRACE input not ready\n"
  | .granted permit available released =>
    "TRACE throttle permit=" ++ toString permit ++ " available=" ++ toString available
      ++ " released=" ++ toString released ++ "\n"
  | .stalled released => "TRACE permit released nothing released=" ++ toString released ++ "\n"
  | .opened path => "DEBUG opened output file path=" ++ path ++ "\n"
  | .released count => "TRACE wrote " ++ toString count ++ " bytes\n"
  | _ => ""

def threeDigits (n : Nat) : String :=
  let digits := toString n
  String.ofList (List.replicate (3 - digits.length) '0') ++ digits

def summary (report : Relay.Report) : String :=
  let speed :=
    if report.elapsed = 0 then report.bytesRead else Progress.rate report.bytesRead report.elapsed
  " INFO processed " ++ byteCount report.bytesRead ++ " in "
    ++ toString (Duration.seconds report.elapsed) ++ "."
    ++ threeDigits (Duration.nanos report.elapsed / 1000000) ++ " secs or "
    ++ byteCount speed ++ " per sec\n"

def signatureLine (signature : Digest.Signature) : String :=
  name ++ ": md5 signature of input = '" ++ signature.text ++ "'\n"

def help : String :=
  "Usage: " ++ name ++ " [OPTIONS] [file]\n\nOptions:\n"
    ++ String.join (CommandLine.names.map fun (letter, long, _) =>
      "  -" ++ letter.toString ++ ", --" ++ long ++ "\n")

/-! ### Outputs -/

def utf8 (text : String) : Bytes := text.toUTF8.toList

/-- What an event put on standard error, and the bytes read once it has happened. -/
def reported (traced : Option Nat) (total : Nat) (event : Event) : Bytes × Nat :=
  match event with
  | .warned text => (utf8 (warning text), total)
  | .progressed text => (utf8 text, total)
  | .emitted .error bytes => (bytes, total)
  | event =>
    let total := total + event.bytesRead
    (((traced.map fun cap => trace cap total event).map utf8).getD [], total)

def reports (traced : Option Nat) (total : Nat) : List Event → Bytes
  | [] => []
  | event :: events =>
    let (bytes, total) := reported traced total event
    bytes ++ reports traced total events

def Outcome.standardOutput (o : Outcome) : Bytes := LineBuffer.sent [] o.journal.toList

def Outcome.standardError (o : Outcome) : Bytes :=
  reports o.traced 0 o.journal.toList ++ utf8 o.closing

/-! ### Running -/

def deviceInput (reads : List ReadStep) : Disk.Device → Source
  | .zero => .zeros reads
  | .full => .zeros reads
  | _ => .pipe []

def placeInput (reads : List ReadStep) : Disk.Place → Source
  | .file name => .file name 0 reads
  | .folder _ => .folder
  | .device device => deviceInput reads device
  | .missing _ => .pipe []

def openInput (arguments : CommandLine.Arguments) (reads : List ReadStep) (disk : Disk) :
    Except (String × Fault) (Source × Disk) :=
  match arguments.input with
  | none => .ok (.standardInput [] 0 reads, disk)
  | some path =>
    match disk.openToRead path with
    | .error fault => .error (path, fault)
    | .ok (place, disk) => .ok (placeInput reads place, disk)

def outputs (arguments : CommandLine.Arguments) (stores : String → List WriteStep) : Sinks :=
  ⟨none, arguments.outputFiles.map fun path => .ofPath path (stores path),
    arguments.options.flushEach⟩

def closingText (arguments : CommandLine.Arguments) : Except RelayError Relay.Report → String
  | .error e => fatalLine e.message e.fault?
  | .ok report =>
    (if arguments.isVerbose then summary report else "")
      ++ (report.digest.map signatureLine).getD ""

/-- The exit code of a run that ended for want of a number. -/
def overflowCode : Nat := 101

def exitCode : Except RelayError Relay.Report → Nat
  | .ok _ => 0
  | .error (.overflow _) => overflowCode
  | .error _ => 1

/-- Run the program on a command line that was accepted. -/
def runAccepted (arguments : CommandLine.Arguments) (disk : Disk) (system : System) :
    Option Outcome :=
  let options := arguments.options
  let traced := if arguments.has .veryVerbose then some options.stopAfter else none
  match openInput arguments system.reads disk with
  | .error (path, fault) =>
    some ⟨1, #[], traced, fatalLine ("cannot open(" ++ path ++ ")") (some fault), disk⟩
  | .ok (source, disk) =>
    let sinks := outputs arguments system.stores
    (Relay.run options source sinks disk system.machine).map fun outcome =>
      ⟨exitCode outcome.result, outcome.journal, traced, closingText arguments outcome.result,
        outcome.disk⟩

/-- **Run the program.** A command line that is refused gives exit code 2, a request for help gives
    0. -/
def run (invocation : Invocation) : Option Outcome :=
  let disk := invocation.start
  match CommandLine.parse invocation.arguments with
  | .error .helpRequested => some ⟨0, #[.wrote (utf8 help)], none, "", disk⟩
  | .error e => some ⟨2, #[], none, fatalLine e.message none, disk⟩
  | .ok arguments => runAccepted arguments disk invocation.system

end StreamRelay.Program
