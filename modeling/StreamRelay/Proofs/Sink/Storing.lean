/-
  StreamRelay/Proofs/Sink/Storing.lean
  ====================================
  **What output files hold that take every store.**

  What a spool has stored and what it holds back make up all that was written to it
  (`Spool.Holds`), so a file that is closed has all of it. This is about a file whose stores may be
  answered in parts but all get on, and that nothing else writes to.

  Sinks whose files nothing was written to yet are `Untouched`: closing them or giving them up does
  nothing to the disk.
-/
import StreamRelay.Proofs.Sink.Moving

namespace StreamRelay

open Disk

variable {name : String} {before bytes block : Bytes} {disk disk' : Disk}

/-! ### One spool -/

namespace Spool

variable {s : Spool} {ε : Type} {m : Move ε}

/-- A spool that stands at the end of a file, with `bytes` written to it: stored there or held
    back. -/
structure Holds (name : String) (bytes : Bytes) (s : Spool) (disk : Disk) : Prop where
  target : s.target = .file name
  answers : ∀ answer ∈ s.answers, answer.getsOn
  offset : s.offset = (disk.contents name).length
  found : (disk.find? name).isSome
  bytes : disk.contents name ++ s.held = bytes

theorem Holds.congr (h : Holds name bytes s disk) (hsame : disk'.find? name = disk.find? name) :
    Holds name bytes s disk' := by
  have hcontents : disk'.contents name = disk.contents name := by rw [contents, contents, hsame]
  refine ⟨h.target, h.answers, ?_, ?_, ?_⟩
  · rw [hcontents]
    exact h.offset
  · rw [hsame]
    exact h.found
  · rw [hcontents]
    exact h.bytes

theorem holds_start {answers : List WriteStep} (hanswers : ∀ answer ∈ answers, answer.getsOn)
    (hfind : disk.find? name = some #[]) : Holds name [] (start (.file name) answers) disk := by
  have hcontents : disk.contents name = [] := contents_of_find? hfind
  refine ⟨rfl, hanswers, ?_, ?_, ?_⟩
  · rw [hcontents]
    rfl
  · rw [hfind]
    rfl
  · rw [hcontents]
    rfl

/-- **A move succeeds and loses nothing.** -/
theorem Holds.move (h : Holds name before s disk) (hfits : m.Fits s block) :
    m.result = .ok () ∧ Holds name (before ++ block) (m.spool s) (m.disk name s disk) := by
  obtain ⟨hok, hanswers⟩ := hfits.getsOn h.answers
  have hcontents : (m.disk name s disk).contents name = disk.contents name ++ m.stored := by
    rw [Move.disk, contents_patch (Nat.le_of_eq h.offset), h.offset, overlay_end]
  refine ⟨hok, h.target, hanswers, ?_, isSome_find?_patch h.found _ _, ?_⟩
  · rw [hcontents, List.length_append, ← h.offset]
    rfl
  · rw [hcontents, List.append_assoc]
    change disk.contents name ++ (m.stored ++ m.held) = _
    rw [hfits.all hok, ← List.append_assoc, h.bytes]

/-- With nothing held back, all is stored. -/
theorem Holds.contents_eq (h : Holds name bytes s disk) (hnone : s.held = []) :
    disk.contents name = bytes := by
  have hbytes := h.bytes
  rwa [hnone, List.append_nil] at hbytes

end Spool

/-! ### One file -/

namespace FileSink

variable {f : FileSink}

def Holds (name : String) (bytes : Bytes) (f : FileSink) (disk : Disk) : Prop :=
  ∃ spool, f.state = .opened spool ∧ spool.Holds name bytes disk

theorem Holds.congr (h : Holds name bytes f disk) (hsame : disk'.find? name = disk.find? name) :
    Holds name bytes f disk' := by
  obtain ⟨spool, hstate, hspool⟩ := h
  exact ⟨spool, hstate, hspool.congr hsame⟩

def Closed (name : String) (bytes : Bytes) (f : FileSink) (disk : Disk) : Prop :=
  f.state = .closed ∧ disk.contents name = bytes

theorem Closed.congr (h : Closed name bytes f disk) (hsame : disk'.find? name = disk.find? name) :
    Closed name bytes f disk' := by
  refine ⟨h.1, ?_⟩
  rw [contents, hsame]
  exact h.2

/-- **A block written is behind those before it**, stored or held back, and stored if every write
    is flushed. -/
theorem Holds.writeOpen (h : Holds name before f disk) (bytes : Bytes) (flush : Bool) :
    Holds name (before ++ bytes) (f.writeOpen disk bytes flush).state.1
        (f.writeOpen disk bytes flush).state.2 ∧
      (flush = true → (f.writeOpen disk bytes flush).state.2.contents name = before ++ bytes) := by
  obtain ⟨spool, hstate, hspool⟩ := h
  obtain ⟨m, hfits, hnow, -, hwrite⟩ := exists_writeOpen_move hstate hspool.target bytes flush
  obtain ⟨hok, hholds⟩ := hspool.move hfits
  rw [hwrite disk]
  exact ⟨⟨_, rfl, hholds⟩, fun hflush => hholds.contents_eq (hnow (Or.inl hflush) hok)⟩

/-- **A file that is closed has all that was written to it.** -/
theorem Holds.close (h : Holds name bytes f disk) :
    Closed name bytes (f.close disk).state.1 (f.close disk).state.2 := by
  obtain ⟨spool, hstate, hspool⟩ := h
  obtain ⟨m, hfits, hempty, hclose⟩ := exists_close_move hstate hspool.target
  obtain ⟨hok, hholds⟩ := hspool.move hfits
  rw [List.append_nil] at hholds
  rw [hclose disk, shut, hok]
  exact ⟨rfl, hholds.contents_eq (hempty hok)⟩

/-- **So has one that is given up.** -/
theorem Holds.release (h : Holds name bytes f disk) : (f.release disk).1.contents name = bytes := by
  obtain ⟨spool, hstate, hspool⟩ := h
  obtain ⟨m, hfits, hempty, hrelease⟩ := exists_release_move hstate hspool.target
  obtain ⟨hok, hholds⟩ := hspool.move hfits
  rw [List.append_nil] at hholds
  rw [hrelease disk]
  exact hholds.contents_eq (hempty hok)

def Settled (f : FileSink) : Prop := ∀ spool, f.state ≠ .opened spool

theorem Settled.close (h : f.Settled) (disk : Disk) : f.close disk = .quiet (f, disk) := by
  unfold FileSink.close
  split
  · next spool hstate => exact absurd hstate (h spool)
  · rfl

theorem Settled.release (h : f.Settled) (disk : Disk) : f.release disk = (disk, []) := by
  unfold FileSink.release
  split
  · next spool hstate => exact absurd hstate (h spool)
  · rfl

theorem settled_of_unopened (h : f.state = .unopened) : f.Settled := by
  intro spool hopened
  cases h.symm.trans hopened

/-- A file that nothing was written to, and that will take every store. -/
structure Fresh (f : FileSink) : Prop where
  unopened : f.state = .unopened
  answers : ∀ answer ∈ f.answers, answer.getsOn

theorem Fresh.eq_ofPath (h : f.Fresh) : f = ofPath f.path f.answers := by
  obtain ⟨path, answers, state⟩ := f
  cases h.unopened
  rfl

end FileSink

/-! ### All sinks -/

namespace Sinks

variable {s : Sinks} {files : List FileSink} {start : Disk}

theorem flushPass_files (s : Sinks) : s.flushPass.state.files = s.files := by
  obtain ⟨pass, hstate, _⟩ := s.flushPass_state
  rw [hstate]

/-- Closing does to the files what closing each of them does, even if the pass-through output cannot
    be flushed then. -/
theorem close_state (s : Sinks) (disk : Disk) :
    ∃ pass, (s.close disk).state =
      ({ s with pass, files := (eachFile FileSink.close s.files disk).state.1 },
        (eachFile FileSink.close s.files disk).state.2) := by
  unfold close
  dsimp only
  split
  · exact ⟨s.pass, rfl⟩
  · obtain ⟨pass, hpass, -⟩ :=
      ({ s with files := (eachFile FileSink.close s.files disk).state.1 } : Sinks).flushPass_state
    exact ⟨pass, by rw [hpass]⟩

/-- Closing sinks whose files can be closed succeeds if the pass-through output never fails, and
    leaves the files as closing them does. -/
theorem close_spec (hreliable : s.Reliable)
    (hfiles : (eachFile FileSink.close s.files disk).result = .ok ()) :
    (s.close disk).result = .ok () ∧
      (s.close disk).state.1.files = (eachFile FileSink.close s.files disk).state.1 ∧
      (s.close disk).state.2 = (eachFile FileSink.close s.files disk).state.2 := by
  have hkept : Reliable { s with files := (eachFile FileSink.close s.files disk).state.1 } :=
    hreliable
  have hflush := hkept.flushPass
  unfold close
  dsimp only
  rw [hfiles]
  exact ⟨hflush.1, flushPass_files _, rfl⟩

theorem eachFile_settled (h : ∀ file ∈ files, file.Settled) (disk : Disk) :
    eachFile FileSink.close files disk = .quiet (files, disk) := by
  induction files with
  | nil => rfl
  | cons file files ih =>
    rw [List.forall_mem_cons] at h
    rw [eachFile, h.1.close disk]
    simp only [Effect.quiet, ih h.2, List.append_nil]

/-- Files that are not open have nothing more to store. -/
theorem releaseFiles_eq (h : ∀ file ∈ files, file.Settled) (disk : Disk) :
    releaseFiles files disk = (disk, []) := by
  induction files with
  | nil => rfl
  | cons file files ih =>
    rw [List.forall_mem_cons] at h
    rw [releaseFiles, h.1.release disk]
    dsimp only
    rw [ih h.2]
    rfl

structure Untouched (files : List FileSink) (start : Disk) (s : Sinks) (disk : Disk) : Prop where
  files_eq : s.files = files
  disk_eq : disk = start
  unopened : ∀ file ∈ files, file.state = .unopened

theorem Untouched.settled (h : Untouched files start s disk) : ∀ file ∈ s.files, file.Settled := by
  rw [h.files_eq]
  exact fun file hmem => FileSink.settled_of_unopened (h.unopened file hmem)

/-- Files that nothing was written to have nothing to flush. -/
theorem Untouched.closing (h : Untouched files start s disk) :
    eachFile FileSink.close s.files disk = .quiet (s.files, disk) :=
  eachFile_settled h.settled disk

theorem Untouched.release_eq (h : Untouched files start s disk) : s.release disk = (disk, []) :=
  releaseFiles_eq h.settled disk

end Sinks

end StreamRelay
