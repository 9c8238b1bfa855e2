/-
  StreamRelay/Main.lean
  =====================
  **The command.**

  The run itself is decided by `Program.run`. This module gathers what it needs beforehand, the
  bytes on standard input and the files and folders that the arguments name, and performs its
  journal afterwards: it writes, pauses and reports in the order of the events, and then stores the
  files that changed.
-/
import StreamRelay.Program

namespace StreamRelay.Main

def trails (workingFolder : Trail) (path : String) : List Trail :=
  let names := Path.names path
  (List.range (names.length + 1)).map fun n =>
    (names.take n).foldl Trail.step (if Path.isAbsolute path then [] else workingFolder)

def foldersAlong (disk : Disk) (trails : List Trail) : IO (List String) := do
  let found ← trails.filterM fun trail => do
    try
      (← IO.FS.realPath (Trail.path trail)).isDir
    catch _ => return false
  return found.map disk.nameOf

def fileAt (disk : Disk) (trail : Trail) : IO (Option (String × Bytes)) := do
  try
    let contents ← IO.FS.readBinFile trail.path
    return some (disk.nameOf trail, contents.toList)
  catch _ => return none

def diskAround (paths : List String) : IO Disk := do
  let start := { Disk.ofFiles [] with workingFolder := Path.names (← IO.currentDir).toString }
  let ways := paths.map (trails start.workingFolder)
  let folders ← ways.mapM (foldersAlong start)
  let ends := (ways.map fun way => way.getLast?.getD []).filter fun trail => !trail.isWithin ["dev"]
  let files ← ends.mapM (fileAt start)
  return { start with
    files := (Disk.ofFiles (files.filterMap id)).files, folders := folders.flatten }

/-- Read standard input to its end, or until there are `cap` bytes if that is not zero. -/
partial def readInput (input : IO.FS.Stream) (cap : Nat) (done : ByteArray) : IO ByteArray := do
  if cap != 0 && cap ≤ done.size then return done
  let chunk ← input.read 65536
  if chunk.isEmpty then return done
  readInput input cap (done ++ chunk)

/-- What a journal has brought to the standard outputs so far: the bytes that standard output holds,
    and the bytes read. -/
structure Progressed where
  held : Bytes := []
  bytesRead : Nat := 0

def send (stream : IO.FS.Stream) (bytes : Bytes) : IO Unit := do
  stream.write ⟨bytes.toArray⟩
  stream.flush

/-- Do what an event says was done. -/
def perform (traced : Option Nat) (output errors : IO.FS.Stream) (p : Progressed) (event : Event) :
    IO Progressed := do
  let (sent, held) := LineBuffer.step p.held event
  let (report, bytesRead) := Program.reported traced p.bytesRead event
  send output sent
  send errors report
  IO.sleep (event.pause / 1000000).toUInt32
  return { held, bytesRead }

def readsStandardInput (arguments : CommandLine.Arguments) : Bool :=
  match arguments.input with
  | none => true
  | some path =>
    match ((Disk.ofFiles []).withStandardInput []).locate path with
    | .ok (.file name) => name == Disk.standardInput
    | _ => false

/-- A request for half of the addresses or more is refused. -/
def memory : Nat := Nat.pow 2 63

def run (arguments : List String) : IO UInt32 := do
  let parsed := (CommandLine.parse arguments).toOption.getD {}
  let disk ← diskAround (parsed.outputFiles ++ parsed.input.toList)
  let input ←
    if readsStandardInput parsed then
      readInput (← IO.getStdin) (parsed.stopAfter.getD 0) ByteArray.empty
    else pure ByteArray.empty
  let invocation : Program.Invocation := ⟨arguments, input.toList, disk, .calm memory⟩
  match Program.run invocation with
  | none => return 1
  | some outcome =>
    let output ← IO.getStdout
    let errors ← IO.getStderr
    let last ← outcome.journal.foldlM (perform outcome.traced output errors) {}
    for (name, contents) in invocation.start.changes outcome.disk do
      IO.FS.writeBinFile name ⟨contents.toArray⟩
    send output last.held
    send errors (Program.utf8 outcome.closing)
    return outcome.exitCode.toUInt32

end StreamRelay.Main

def main (arguments : List String) : IO UInt32 := StreamRelay.Main.run arguments
