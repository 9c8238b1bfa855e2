/-
  StreamRelay/CommandLine/Arguments.lean
  ======================================
  **The command line: switches, settings and the input file.**

  Arguments are taken in order. A switch is a letter or a long name; letters may share one argument.
  A setting takes a value, attached or as the next argument. Every other argument is the input file,
  of which there is one at most; after `--` all arguments are.

  A value that came as an argument of its own is pending: it is checked when the next switch,
  setting or file is taken, or at the end. So an argument that is not known at all is reported
  before a bad value in front of it.
-/
import StreamRelay.CommandLine.Seconds
import StreamRelay.Options

namespace StreamRelay.CommandLine

/-! ### Names -/

inductive Switch where
  | readAll
  | flushEach
  | digest
  | nonBlocking
  | passThrough
  | readFraming
  | verbose
  | veryVerbose
  | writeFraming
deriving DecidableEq, Repr

inductive Setting where
  | bufferSize
  | dotEvery
  | outputFile
  | rateEvery
  | stopAfter
  | throttle
deriving DecidableEq, Repr

inductive Name where
  | switch (s : Switch)
  | setting (s : Setting)
  | help
deriving DecidableEq, Repr

/-- The names: a letter, a long name, and what they stand for. -/
def names : List (Char × String × Name) :=
  [('a', "all-read", .switch .readAll),
   ('b', "buffer-size", .setting .bufferSize),
   ('d', "dot-blocks", .setting .dotEvery),
   ('f', "output-file", .setting .outputFile),
   ('F', "flush-output", .switch .flushEach),
   ('m', "md5", .switch .digest),
   ('n', "non-block", .switch .nonBlocking),
   ('p', "pass-input", .switch .passThrough),
   ('r', "read-pagination", .switch .readFraming),
   ('R', "rate-every", .setting .rateEvery),
   ('s', "stop-after", .setting .stopAfter),
   ('t', "throttle-size", .setting .throttle),
   ('v', "verbose", .switch .verbose),
   ('V', "very-verbose", .switch .veryVerbose),
   ('w', "write-pagination", .switch .writeFraming),
   ('h', "help", .help)]

def Name.ofLetter? (letter : Char) : Option Name :=
  (names.find? fun name => name.1 == letter).map (·.2.2)

/-- What a long name stands for; it cannot be shortened. -/
def Name.ofLong? (long : String) : Option Name :=
  (names.find? fun name => name.2.1 == long).map (·.2.2)

/-! ### Errors -/

/-- Why a command line is refused, and the request for help. -/
inductive ArgumentError where
  | unknownArgument
  | missingValue
  | rejectedValue (message : String)
  | givenTwice
  | valueNotTaken
  | helpRequested
deriving DecidableEq, Repr

def ArgumentError.message : ArgumentError → String
  | .unknownArgument => "unexpected argument"
  | .missingValue => "a value is required"
  | .rejectedValue message => "invalid value: " ++ message
  | .givenTwice => "an argument cannot be used multiple times"
  | .valueNotTaken => "a value was not expected"
  | .helpRequested => "help requested"

/-! ### Parsed arguments -/

/-- A command line that was accepted; a setting that was not given has no value. -/
structure Arguments where
  switches : List Switch := []
  bufferSize : Option Nat := none
  dotEvery : Option Nat := none
  rateEvery : Option Duration := none
  stopAfter : Option Nat := none
  throttle : Option Nat := none
  outputFiles : List String := []
  input : Option String := none
deriving DecidableEq, Repr

namespace Arguments

def has (a : Arguments) (s : Switch) : Bool := decide (s ∈ a.switches)

def isVerbose (a : Arguments) : Bool := a.has .verbose || a.has .veryVerbose

def logLevel (a : Arguments) : String :=
  if a.has .veryVerbose then "trace" else if a.has .verbose then "info" else "warn"

/-- **The options of the relay that is asked for.** -/
def options (a : Arguments) : Options where
  bufferSize := a.bufferSize.getD defaultBufferSize
  readAll := a.has .readAll
  dotEvery := a.dotEvery.getD 0
  rateEvery := a.rateEvery
  stopAfter := a.stopAfter.getD 0
  throttle := a.throttle.getD 0
  passThrough := a.has .passThrough
  readFraming := a.has .readFraming
  writeFraming := a.has .writeFraming
  digest := a.has .digest
  nonBlocking := a.has .nonBlocking
  flushEach := a.has .flushEach

def turnOn (a : Arguments) (s : Switch) : Except ArgumentError Arguments :=
  if a.has s then .error .givenTwice else .ok { a with switches := a.switches ++ [s] }

/-- A size for a setting that has none yet. -/
def sizeOnce (given : Option Nat) (value : String) : Except ArgumentError Nat :=
  if given.isSome then .error .givenTwice
  else (parseSize value).mapError fun e => .rejectedValue e.message

/-- Give a setting its value. Only output files can be given more than once. -/
def set (a : Arguments) (s : Setting) (value : String) : Except ArgumentError Arguments :=
  match s with
  | .bufferSize => (sizeOnce a.bufferSize value).map fun n => { a with bufferSize := some n }
  | .dotEvery => (sizeOnce a.dotEvery value).map fun n => { a with dotEvery := some n }
  | .stopAfter => (sizeOnce a.stopAfter value).map fun n => { a with stopAfter := some n }
  | .throttle => (sizeOnce a.throttle value).map fun n => { a with throttle := some n }
  | .rateEvery =>
    if a.rateEvery.isSome then .error .givenTwice
    else
      match parseSeconds value with
      | .error e => .error (.rejectedValue e.message)
      | .ok span => .ok { a with rateEvery := some span }
  | .outputFile =>
    if value.isEmpty then .error .missingValue
    else .ok { a with outputFiles := a.outputFiles ++ [value] }

end Arguments

/-! ### Taking arguments -/

/-- What was taken but not checked yet: a setting, with its value if that came, or the input. -/
inductive Pending where
  | setting (s : Setting) (value : Option String)
  | input (path : String)
deriving DecidableEq, Repr

/-- A command line in the course of being taken. The input file is counted when it is taken, and
    checked later; after `--` every argument is a file. -/
structure Parsing where
  accepted : Arguments := {}
  pending : Option Pending := none
  awaiting : Option Setting := none
  hasInput : Bool := false
  onlyFiles : Bool := false
deriving DecidableEq, Repr

namespace Parsing

def resolve (p : Parsing) : Except ArgumentError Parsing :=
  let p' := { p with pending := none, awaiting := none }
  match p.pending with
  | none => .ok p'
  | some (.setting _ none) => .error .missingValue
  | some (.setting s (some value)) =>
    (p.accepted.set s value).map fun accepted => { p' with accepted }
  | some (.input path) =>
    if path.isEmpty then .error .missingValue
    else .ok { p' with accepted := { p.accepted with input := some path } }

def takeSwitch (p : Parsing) (s : Switch) : Except ArgumentError Parsing := do
  let p ← p.resolve
  let accepted ← p.accepted.turnOn s
  return { p with accepted }

def takeAttached (p : Parsing) (s : Setting) (value : String) : Except ArgumentError Parsing := do
  let p ← p.resolve
  let accepted ← p.accepted.set s value
  return { p with accepted }

def takeSetting (p : Parsing) (s : Setting) : Except ArgumentError Parsing := do
  let p ← p.resolve
  return { p with pending := some (.setting s none), awaiting := some s }

def takeHelp (p : Parsing) : Except ArgumentError Parsing := do
  let _ ← p.resolve
  .error .helpRequested

def takeFile (p : Parsing) (path : String) : Except ArgumentError Parsing :=
  if p.hasInput then .error .unknownArgument
  else do
    let p ← p.resolve
    return { p with pending := some (.input path), hasInput := true }

/-- Take letters that share an argument. Behind a setting's letter stands its value, with or without
    an equals sign. -/
def takeLetters (p : Parsing) : List Char → Except ArgumentError Parsing
  | [] => .ok p
  | letter :: rest =>
    match Name.ofLetter? letter with
    | none => .error .unknownArgument
    | some .help => p.takeHelp
    | some (.switch s) =>
      match p.takeSwitch s with
      | .error e => .error e
      | .ok p => p.takeLetters rest
    | some (.setting s) =>
      match rest with
      | [] => p.takeSetting s
      | '=' :: value => p.takeAttached s (String.ofList value)
      | value => p.takeAttached s (String.ofList value)

def takeLong (p : Parsing) (text : List Char) : Except ArgumentError Parsing :=
  let value := match text.dropWhile (· != '=') with
    | _ :: value => some (String.ofList value)
    | [] => none
  match Name.ofLong? (String.ofList (text.takeWhile (· != '='))), value with
  | none, _ => .error .unknownArgument
  | some (.setting s), some value => p.takeAttached s value
  | some (.setting s), none => p.takeSetting s
  | some _, some _ => .error .valueNotTaken
  | some (.switch s), none => p.takeSwitch s
  | some .help, none => p.takeHelp

def take (p : Parsing) (argument : String) : Except ArgumentError Parsing :=
  if p.onlyFiles then p.takeFile argument
  else
    match argument.toList with
    | ['-', '-'] => .ok { p with onlyFiles := true, awaiting := none }
    | '-' :: '-' :: text => p.takeLong text
    | '-' :: letter :: rest => p.takeLetters (letter :: rest)
    | _ =>
      match p.awaiting with
      | some s => .ok { p with pending := some (.setting s (some argument)), awaiting := none }
      | none => p.takeFile argument

end Parsing

/-- **Read a command line**, the arguments behind the program's name. -/
def parse (arguments : List String) : Except ArgumentError Arguments := do
  let p ← arguments.foldlM Parsing.take {}
  let p ← p.resolve
  return p.accepted

end StreamRelay.CommandLine
