/-
  StreamRelay/Source.lean
  =======================
  **Where the input comes from.**

  A source is asked for at most a given number of bytes and answers with some, with end of input,
  with "not ready yet", or with a fault. An interrupted attempt is made again and never seen by
  the caller; an attempt that would block is reported as not ready.

  A `Feed` is a source whose behaviour is laid down step by step. The other sources are a pipe
  that holds all its bytes, zeros without end, standard input behind its read-ahead, an input file
  read at an offset, and a folder, which can be opened but not read. How the system splits the
  reads of a file, and how long they take, is laid down too.
-/
import StreamRelay.Disk
import StreamRelay.Clock

namespace StreamRelay

inductive Reading where
  | bytes (bytes : Bytes)
  | endOfInput
  | notReady
  | failed (fault : Fault)
deriving DecidableEq, Repr

def Reading.ofBytes : Bytes → Reading
  | [] => .endOfInput
  | b :: rest => .bytes (b :: rest)

/-! ### Feeds -/

/-- One step of a feed: bytes become available (none: end of input), time passes, an attempt is
    interrupted, would block or fails. -/
inductive FeedStep where
  | bytes (bytes : Bytes)
  | passTime (span : Duration)
  | interrupted
  | wouldBlock
  | fail (fault : Fault)
deriving DecidableEq, Repr

/-- A feed: bytes that became available and were not read yet, and the steps to come. After the
    last step the input is at its end. -/
structure Feed where
  ready : Bytes
  steps : List FeedStep
deriving DecidableEq, Repr

def FeedStep.payload : FeedStep → Bytes
  | .bytes given => given
  | _ => []

/-- All bytes that a feed holds, those past an end of input included. -/
def Feed.payload (feed : Feed) : Bytes := feed.ready ++ feed.steps.flatMap FeedStep.payload

structure ReadResult (σ : Type) where
  reading : Reading
  elapsed : Duration
  source : σ

/-- Take steps until one of them answers the read; interrupted attempts are made again. -/
def Feed.readSteps (want : Nat) : List FeedStep → ReadResult Feed
  | [] => ⟨.endOfInput, 0, ⟨[], []⟩⟩
  | .bytes bytes :: steps => ⟨.ofBytes (bytes.take want), 0, ⟨bytes.drop want, steps⟩⟩
  | .passTime span :: steps =>
    let r := readSteps want steps
    { r with elapsed := span + r.elapsed }
  | .interrupted :: steps => readSteps want steps
  | .wouldBlock :: steps => ⟨.notReady, 0, ⟨[], steps⟩⟩
  | .fail fault :: steps => ⟨.failed fault, 0, ⟨[], steps⟩⟩

/-- Read at most `want` bytes. Bytes that are ready are read first, and a step is only taken when
    there are none, so the bytes of two steps are never joined. -/
def Feed.read (feed : Feed) (want : Nat) : ReadResult Feed :=
  match feed.ready with
  | [] => Feed.readSteps want feed.steps
  | ready => ⟨.ofBytes (ready.take want), 0, { feed with ready := ready.drop want }⟩

/-! ### Reads of the system -/

/-- How one read goes: it brings at most so many bytes, but one at least if there are any, and takes
    some time. -/
structure ReadStep where
  most : Nat
  time : Duration
deriving DecidableEq, Repr

/-- The time that a read takes when none is laid down: a limiter that is asked after a read has been
    open for some time. -/
def readTime : Duration := 1

/-- What is left of a request for `want` bytes, the time that the read takes, and the reads to come.
    After the last that is laid down, reads are not cut short. -/
def nextRead (want : Nat) : List ReadStep → Nat × Duration × List ReadStep
  | [] => (want, readTime, [])
  | step :: reads => (min want (max step.most 1), step.time, reads)

/-! ### Sources -/

inductive WaitStep where
  | ready (isReady : Bool)
  | fail (fault : Fault)
deriving DecidableEq, Repr

def readAhead : Nat := 8192

/-- The sources. A feed has a step for each wait, and is always ready after the last one; standard
    input has bytes that were read ahead, and is read ahead on from an offset; a file is read on
    from an offset. -/
inductive Source where
  | feed (feed : Feed) (waits : List WaitStep)
  | pipe (rest : Bytes)
  | zeros (reads : List ReadStep)
  | standardInput (ahead : Bytes) (offset : Nat) (reads : List ReadStep)
  | file (name : String) (offset : Nat) (reads : List ReadStep)
  | folder
deriving Repr

namespace Source

def wait : Source → Except Fault Bool × Source
  | .feed f (.ready isReady :: waits) => (.ok isReady, .feed f waits)
  | .feed f (.fail fault :: waits) => (.error fault, .feed f waits)
  | source => (.ok true, source)

/-- Read from standard input. What was read ahead is given first; a request that is no smaller than
    the read-ahead goes past it when it is empty. -/
def readStandardInput (disk : Disk) (ahead : Bytes) (offset : Nat) (reads : List ReadStep)
    (want : Nat) : ReadResult Source :=
  match ahead with
  | [] =>
    let (size, time, reads) := nextRead (max readAhead want) reads
    let bytes := disk.slice Disk.standardInput offset size
    ⟨.ofBytes (bytes.take want), time,
      .standardInput (bytes.drop want) (offset + bytes.length) reads⟩
  | ahead =>
    ⟨.ofBytes (ahead.take want), readTime, .standardInput (ahead.drop want) offset reads⟩

/-- **Read at most `want` bytes.** Files are read as they are on the disk at this moment. -/
def read (disk : Disk) (source : Source) (want : Nat) : ReadResult Source :=
  match source with
  | .feed f waits =>
    let r := f.read want
    ⟨r.reading, r.elapsed, .feed r.source waits⟩
  | .pipe rest => ⟨.ofBytes (rest.take want), 0, .pipe (rest.drop want)⟩
  | .zeros reads =>
    let (size, time, reads) := nextRead want reads
    ⟨.ofBytes (List.replicate size 0), time, .zeros reads⟩
  | .standardInput ahead offset reads => readStandardInput disk ahead offset reads want
  | .file name offset reads =>
    let (size, time, reads) := nextRead want reads
    let bytes := disk.slice name offset size
    ⟨.ofBytes bytes, time, .file name (offset + bytes.length) reads⟩
  | .folder => ⟨.failed .isFolder, readTime, .folder⟩

/-! ### How much there is to come -/

def extent (disk : Disk) : Source → Nat
  | .feed f _ => f.payload.length
  | .pipe rest => rest.length
  | .zeros _ => countLimit
  | .standardInput ahead offset _ =>
    ahead.length + ((disk.contents Disk.standardInput).length - offset)
  | .file name offset _ => (disk.contents name).length - offset
  | .folder => 0

def answers : Source → Nat
  | .feed f waits => f.steps.length + waits.length
  | _ => 0

end Source

end StreamRelay
