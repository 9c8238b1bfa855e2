/-
  StreamRelay/Proofs/Source/Regular.lean
  ======================================
  **Sources that read a regular file.**

  Standard input behind its read-ahead and an input file at an offset both give the bytes of one
  file in order. How much they read ahead does not show: what a read gives and what remains after it
  make up what remained before (`Attempt.regular`), and the end of the input is that of the file.
-/
import StreamRelay.Proofs.Source.Delivery

namespace StreamRelay

namespace Source

variable {disk disk' : Disk} {source : Source} {name : String} {want : Nat}
  {answer : ReadResult Source}

def file? : Source → Option String
  | .standardInput _ _ _ => some Disk.standardInput
  | .file name _ _ => some name
  | _ => none

def remaining (disk : Disk) : Source → Bytes
  | .standardInput ahead offset _ => ahead ++ (disk.contents Disk.standardInput).drop offset
  | .file name offset _ => (disk.contents name).drop offset
  | _ => []

def readSpan : Source → Duration
  | .standardInput _ _ reads => StreamRelay.readSpan reads
  | .file _ _ reads => StreamRelay.readSpan reads
  | _ => 0

theorem slice_eq (disk : Disk) (name : String) (offset count : Nat) :
    disk.slice name offset count = ((disk.contents name).drop offset).take count := by
  simp [Disk.slice, Disk.contents, List.extract_eq_take_drop]

theorem slice_append (disk : Disk) (name : String) (offset count : Nat) :
    disk.slice name offset count ++ (disk.contents name).drop
      (offset + (disk.slice name offset count).length) =
      (disk.contents name).drop offset := by
  rw [slice_eq, ← List.drop_drop]
  generalize (disk.contents name).drop offset = rest
  rcases Nat.le_total count rest.length with hle | hle
  · rw [List.length_take_of_le hle, List.take_append_drop]
  · simp [List.take_of_length_le hle]

theorem remaining_congr (hfile : source.file? = some name)
    (hsame : disk'.find? name = disk.find? name) :
    source.remaining disk' = source.remaining disk := by
  cases source <;> cases hfile <;> simp only [remaining, Disk.contents, hsame]

theorem extent_eq_length (hfile : source.file? = some name) :
    source.extent disk = (source.remaining disk).length := by
  cases source <;> cases hfile <;> simp [extent, remaining]

theorem answers_eq_zero (hfile : source.file? = some name) : source.answers = 0 := by
  cases source <;> cases hfile <;> rfl

/-- An answer of a regular file: the next of its bytes, in the time laid down for the read. -/
structure Next (disk : Disk) (source : Source) (answer : ReadResult Source) : Prop where
  file : answer.source.file? = source.file?
  elapsed : answer.elapsed + answer.source.readSpan ≤ readTime + source.readSpan
  reading : answer.reading = .ofBytes answer.reading.given
  parts : answer.reading.given ++ answer.source.remaining disk = source.remaining disk

theorem next_read (hfile : source.file? = some name) (disk : Disk) (want : Nat) :
    Next disk source (source.read disk want) := by
  cases source with
  | standardInput ahead offset reads =>
    cases ahead with
    | nil =>
      have hslice := slice_append disk Disk.standardInput offset
        (nextRead (max readAhead want) reads).1
      refine ⟨rfl, nextRead_span _ reads, by simp [read, readStandardInput], ?_⟩
      simp only [read, readStandardInput, Reading.given_ofBytes, remaining, List.nil_append]
      rw [← List.append_assoc, List.take_append_drop]
      exact hslice
    | cons b rest =>
      refine ⟨rfl, Nat.le_refl _, by simp [read, readStandardInput], ?_⟩
      simp only [read, readStandardInput, Reading.given_ofBytes, remaining]
      rw [← List.append_assoc, List.take_append_drop]
  | file name offset reads =>
    refine ⟨rfl, nextRead_span want reads, by simp [read], ?_⟩
    simpa [read, remaining] using slice_append disk name offset (nextRead want reads).1
  | _ => cases hfile

theorem wait_regular (hfile : source.file? = some name) : source.wait = (.ok true, source) := by
  cases source <;> cases hfile <;> rfl

/-- **Any attempt on a regular file brings the next of its bytes**, since it is always ready. -/
theorem Attempt.regular (h : source.Attempt disk want answer) (hfile : source.file? = some name) :
    Next disk source answer ∧ answer = source.read disk want := by
  have hwait := wait_regular hfile
  cases h with
  | unready hunready =>
    rw [hwait] at hunready
    cases hunready
  | waited hwaited =>
    rw [hwait] at hwaited
    cases hwaited
    exact ⟨next_read hfile disk want, rfl⟩
  | direct => exact ⟨next_read hfile disk want, rfl⟩

theorem Attempt.regular_end (h : source.Attempt disk want answer) (hfile : source.file? = some name)
    (hwant : 0 < want) (hend : answer.reading = .endOfInput) : source.remaining disk = [] := by
  obtain ⟨_, rfl⟩ := h.regular hfile
  have hdrained := drained_of_endOfInput hwant hend
  apply List.eq_nil_of_length_eq_zero
  rw [← extent_eq_length hfile]
  cases source <;> cases hfile <;> exact hdrained

end Source

end StreamRelay
