/-
  StreamRelay/Proofs/Sink/Prefixes.lean
  =====================================
  **Output files hold part of what was written to them, whatever fails.**

  Here a path need not lead to a regular file, several paths may lead to the same one, and any store
  may fail with part of it done. A file that several paths lead to is emptied and written to more
  than once, by spools that are at different offsets; but all of them write the same bytes to the
  same places. As long as every write succeeds, a spool stands in its file: what it has not stored
  is what it holds (`Spool.Stands`). After a failure it still rests there: what it holds is part of
  the whole, from its place on (`Spool.Rests`). A file that nothing but such spools write to holds
  part of the whole (`Disk.Keeps`).

  Main statements: a block that is written leaves in each file part of it and of what was written
  before, and if every write succeeds every file stands at its end (`Stored.writeFiles`); closing
  and giving up add nothing else (`Fits.close`, `Fits.release`).
-/
import StreamRelay.Proofs.Disk.Keeping
import StreamRelay.Proofs.Sink.Moving

namespace StreamRelay

open Disk

variable {start disk disk' : Disk} {name path : String} {whole before bytes block : Bytes}

/-! ### One spool -/

namespace Spool

variable {s : Spool} {ε : Type} {m : Move ε}

/-- A spool that stands in a file which was opened, with `bytes` written to it: those before its
    offset are stored, and the rest is held back. -/
structure Stands (start : Disk) (name : String) (bytes : Bytes) (s : Spool) (disk : Disk) :
    Prop where
  target : s.target = .file name
  opened : start.Opened disk name
  stored : s.offset ≤ (disk.contents name).length
  offset_le : s.offset ≤ bytes.length
  held : s.held = bytes.drop s.offset

/-- A spool that holds back nothing but some of `whole` from its offset on. The file reaches up to
    there, unless nothing is held. -/
structure Rests (start : Disk) (name : String) (whole : Bytes) (s : Spool) (disk : Disk) :
    Prop where
  target : s.target = .file name
  opened : start.Opened disk name
  stored : s.held ≠ [] → s.offset ≤ (disk.contents name).length
  held : s.held <+: whole.drop s.offset

theorem Stands.later (h : Stands start name bytes s disk) (hlater : start.Later disk disk') :
    Stands start name bytes s disk' :=
  ⟨h.target, h.opened.mono hlater.descriptors,
    Nat.le_trans h.stored (hlater.longer name h.opened), h.offset_le, h.held⟩

theorem Rests.later (h : Rests start name whole s disk) (hlater : start.Later disk disk') :
    Rests start name whole s disk' :=
  ⟨h.target, h.opened.mono hlater.descriptors, fun hsome =>
    Nat.le_trans (h.stored hsome) (hlater.longer name h.opened), h.held⟩

theorem Stands.rests (h : Stands start name bytes s disk) (hbytes : bytes <+: whole) :
    Rests start name whole s disk :=
  ⟨h.target, h.opened, fun _ => h.stored, h.held ▸ hbytes.drop s.offset⟩

/-- A spool in a file that was just opened. -/
theorem stands_start (answers : List WriteStep) (h : start.Opened disk name) :
    Stands start name [] (.start (.file name) answers) disk :=
  ⟨rfl, h, Nat.zero_le _, Nat.le_refl _, rfl⟩

/-- **A move that succeeds leaves the spool standing behind the block.** -/
theorem Stands.move (h : Stands start name before s disk) (hfits : m.Fits s block)
    (hok : m.result = .ok ()) :
    Stands start name (before ++ block) (m.spool s) (m.disk name s disk) := by
  have hrest : m.stored ++ m.held = (before ++ block).drop s.offset := by
    rw [hfits.all hok, h.held, List.drop_append_of_le_length h.offset_le]
  refine ⟨h.target, (opened_patch s.offset m.stored name).2 h.opened, ?_, ?_, ?_⟩
  · exact (length_patch h.stored m.stored).1
  · have hlength := congrArg List.length hrest
    have := h.offset_le
    simp only [List.length_append, List.length_drop] at hlength
    simp only [Move.spool, List.length_append]
    omega
  · simp only [Move.spool]
    rw [← List.drop_drop, ← hrest, List.drop_left]

/-- **Any move leaves part of the whole in the file**, and the spool resting there. -/
theorem rests_move (hfits : m.Fits s block) (htarget : s.target = .file name)
    (hopened : start.Opened disk name)
    (hplace : s.held ++ block ≠ [] → s.offset ≤ (disk.contents name).length)
    (hwhole : s.held ++ block <+: whole.drop s.offset) (hkeeps : start.Keeps whole disk) :
    Rests start name whole (m.spool s) (m.disk name s disk) ∧
      start.Keeps whole (m.disk name s disk) ∧ start.Later disk (m.disk name s disk) := by
  have hpart := hfits.part.trans hwhole
  have hreach {bytes : Bytes} (hbytes : bytes <+: s.held ++ block) (hsome : bytes ≠ []) :
      s.offset ≤ (disk.contents name).length := by
    apply hplace
    rintro hnone
    rw [hnone, List.prefix_nil] at hbytes
    exact hsome hbytes
  have hstored := (List.prefix_append m.stored m.held).trans hfits.part
  refine ⟨⟨htarget, (opened_patch _ _ _).2 hopened, fun hsome => ?_, ?_⟩,
    hkeeps.patch hopened (hreach hstored) ((List.prefix_append _ _).trans hpart)⟩
  · have hne : m.stored ++ m.held ≠ [] := fun h => hsome (List.append_eq_nil_iff.1 h).2
    exact (length_patch (hreach hfits.part hne) m.stored).1
  · obtain ⟨rest, hrest⟩ := hpart
    simp only [Move.spool]
    rw [← List.drop_drop, ← hrest, List.append_assoc, List.drop_left]
    exact List.prefix_append _ _

theorem Rests.move (h : Rests start name whole s disk) (hfits : m.Fits s [])
    (hkeeps : start.Keeps whole disk) :
    Rests start name whole (m.spool s) (m.disk name s disk) ∧
      start.Keeps whole (m.disk name s disk) ∧ start.Later disk (m.disk name s disk) := by
  apply rests_move hfits h.target h.opened _ _ hkeeps
  · rw [List.append_nil]
    exact h.stored
  · rw [List.append_nil]
    exact h.held

/-! ### Devices -/

structure Outcome.Idle (device : Device) (disk : Disk) (o : Outcome) : Prop where
  target : o.spool.target = .device device
  disk : o.disk = disk

variable {device : Device}

theorem idle_store (h : s.target = .device device) (disk : Disk) (refusal : Fault)
    (bytes : Bytes) : (s.store disk refusal bytes).Idle device disk := by
  unfold store
  dsimp only
  split
  · next disk' hwrite =>
    rw [h] at hwrite
    exact ⟨h, write_device hwrite⟩
  · exact ⟨h, rfl⟩

theorem idle_flush (h : s.target = .device device) (disk : Disk) :
    (s.flush disk).Idle device disk := by
  have hstore := idle_store h disk .nothingStored s.held
  exact ⟨hstore.target, hstore.disk⟩

theorem idle_place (h : s.target = .device device) (disk : Disk) (bytes : Bytes) :
    (s.place disk bytes).Idle device disk := by
  unfold place
  split
  · exact idle_store h disk _ bytes
  · exact ⟨h, rfl⟩

theorem idle_write (h : s.target = .device device) (disk : Disk) (bytes : Bytes) :
    (s.write disk bytes).Idle device disk := by
  have hflush := idle_flush h disk
  unfold write
  split
  · dsimp only
    split
    · have hplace := idle_place hflush.target (s.flush disk).disk bytes
      exact ⟨hplace.target, hplace.disk.trans hflush.disk⟩
    · exact hflush
  · exact idle_place h disk bytes

end Spool

/-! ### One file -/

namespace FileSink

variable {f : FileSink} {flush : Bool} {answers : List WriteStep}

def Stands (start : Disk) (bytes : Bytes) (f : FileSink) (disk : Disk) : Prop :=
  ∀ spool name, f.state = .opened spool → spool.target = .file name →
    spool.Stands start name bytes disk

def Rests (start : Disk) (whole : Bytes) (f : FileSink) (disk : Disk) : Prop :=
  ∀ spool name, f.state = .opened spool → spool.target = .file name →
    spool.Rests start name whole disk

theorem Stands.later (h : f.Stands start bytes disk) (hlater : start.Later disk disk') :
    f.Stands start bytes disk' :=
  fun spool name hstate htarget => (h spool name hstate htarget).later hlater

theorem Rests.later (h : f.Rests start whole disk) (hlater : start.Later disk disk') :
    f.Rests start whole disk' :=
  fun spool name hstate htarget => (h spool name hstate htarget).later hlater

theorem Stands.rests (h : f.Stands start bytes disk) (hbytes : bytes <+: whole) :
    f.Rests start whole disk :=
  fun spool name hstate htarget => (h spool name hstate htarget).rests hbytes

theorem stands_opened {s : Spool} (h : s.Stands start name bytes disk) :
    Stands start bytes ⟨path, answers, .opened s⟩ disk := by
  rintro _ other ⟨⟩ htarget
  rw [h.target] at htarget
  cases htarget
  exact h

theorem rests_opened {s : Spool} (h : s.Rests start name whole disk) :
    Rests start whole ⟨path, answers, .opened s⟩ disk := by
  rintro _ other ⟨⟩ htarget
  rw [h.target] at htarget
  cases htarget
  exact h

/-- The file is not open as a regular file, so it stands and rests anywhere. -/
def Absent (f : FileSink) : Prop :=
  ∀ spool name, f.state = .opened spool → spool.target ≠ .file name

theorem Absent.stands (h : f.Absent) : f.Stands start bytes disk :=
  fun spool name hstate htarget => absurd htarget (h spool name hstate)

theorem Absent.rests (h : f.Absent) : f.Rests start whole disk :=
  fun spool name hstate htarget => absurd htarget (h spool name hstate)

theorem absent_of_ne (h : ∀ spool, f.state ≠ .opened spool) : f.Absent :=
  fun spool _ hstate => absurd hstate (h spool)

theorem absent_of_unopened (h : f.state = .unopened) : f.Absent :=
  absent_of_ne fun spool hopened => by
    rw [h] at hopened
    cases hopened

theorem absent_device {s : Spool} {device : Device} (h : s.target = .device device) :
    Absent ⟨path, answers, .opened s⟩ := by
  rintro _ name ⟨⟩ htarget
  rw [h] at htarget
  cases htarget

/-- Writing to an open device leaves the disk as it is. -/
theorem idle_writeOpen {spool : Spool} {device : Device} (hstate : f.state = .opened spool)
    (htarget : spool.target = .device device) (disk : Disk) (bytes : Bytes) (flush : Bool) :
    ∃ o : Spool.Outcome, o.Idle device disk ∧
      (f.writeOpen disk bytes flush).state = (⟨f.path, f.answers, .opened o.spool⟩, disk) := by
  have hwrite := Spool.idle_write htarget disk bytes
  have hflush := Spool.idle_flush hwrite.target disk
  unfold writeOpen
  rw [hstate]
  dsimp only
  rw [hwrite.disk]
  split
  · exact ⟨_, hwrite, rfl⟩
  · split
    · exact ⟨_, hflush, by rw [hflush.disk]⟩
    · exact ⟨_, hwrite, rfl⟩

/-- What writing to a file comes to: part of the whole if it fails, and all of the block if not. -/
structure Carries (start : Disk) (whole bytes : Bytes) (disk : Disk)
    (e : Effect SinkError (FileSink × Disk)) : Prop where
  tried : e.state.1.state ≠ .unopened
  rests : e.state.1.Rests start whole e.state.2
  keeps : start.Keeps whole e.state.2
  later : start.Later disk e.state.2
  stands : e.result = .ok () → e.state.1.Stands start bytes e.state.2

/-- **A block written to a file that was opened is behind those before it**; a write that fails
    leaves nothing that does not belong there. -/
theorem Stands.writeOpen (h : f.Stands start before disk) (htried : f.state ≠ .unopened)
    (hkeeps : start.Keeps whole disk) (hwhole : before ++ bytes <+: whole) (flush : Bool) :
    Carries start whole (before ++ bytes) disk (f.writeOpen disk bytes flush) := by
  rcases hstate : f.state with _ | spool | _ | _
  · exact absurd hstate htried
  · rcases htarget : spool.target with name | device
    · have hstands := h spool name hstate htarget
      obtain ⟨m, hfits, -, -, hwrite⟩ := exists_writeOpen_move hstate htarget bytes flush
      -- what is held begins at the offset, so the block continues it within the whole
      have hrest : spool.held ++ bytes <+: whole.drop spool.offset := by
        rw [hstands.held, ← List.drop_append_of_le_length hstands.offset_le]
        exact hwhole.drop spool.offset
      obtain ⟨hrests, hkept, hlater⟩ := Spool.rests_move hfits htarget hstands.opened
        (fun _ => hstands.stored) hrest hkeeps
      rw [hwrite disk]
      exact ⟨FileState.noConfusion, rests_opened hrests, hkept, hlater,
        fun hok => stands_opened (hstands.move hfits hok)⟩
    · obtain ⟨o, hidle, hwrite⟩ := idle_writeOpen hstate htarget disk bytes flush
      have habsent : (f.writeOpen disk bytes flush).state.1.Absent := by
        rw [hwrite]
        exact absent_device hidle.target
      refine ⟨?_, habsent.rests, ?_, ?_, fun _ => habsent.stands⟩ <;> rw [hwrite]
      · exact FileState.noConfusion
      · exact hkeeps
      · exact .refl start disk
  all_goals
    have hquiet : f.writeOpen disk bytes flush = .quiet (f, disk) := by
      unfold FileSink.writeOpen
      rw [hstate]
    have habsent : f.Absent := absent_of_ne (by simp [hstate])
    rw [hquiet]
    exact ⟨htried, habsent.rests, hkeeps, .refl start disk, fun _ => habsent.stands⟩

/-- **Closing a file stores what it holds and nothing else**, as far as that can be stored. -/
theorem Rests.close (h : f.Rests start whole disk) (hkeeps : start.Keeps whole disk) :
    (f.close disk).state.1.Rests start whole (f.close disk).state.2 ∧
      start.Keeps whole (f.close disk).state.2 ∧ start.Later disk (f.close disk).state.2 := by
  by_cases hopen : ∃ spool, f.state = .opened spool
  · obtain ⟨spool, hstate⟩ := hopen
    rcases htarget : spool.target with name | device
    · obtain ⟨m, hfits, -, hclose⟩ := exists_close_move hstate htarget
      obtain ⟨hrests, hkept, hlater⟩ := (h spool name hstate htarget).move hfits hkeeps
      rw [hclose disk]
      refine ⟨?_, hkept, hlater⟩
      unfold shut
      split
      · exact (absent_of_ne fun _ => FileState.noConfusion).rests
      · exact rests_opened hrests
    · -- a device has no contents that a store could spoil
      have hidle := Spool.idle_flush htarget disk
      unfold FileSink.close
      rw [hstate]
      dsimp only
      rw [hidle.disk]
      split
      · exact ⟨(absent_device hidle.target).rests, hkeeps, .refl start disk⟩
      · exact ⟨(absent_of_ne fun _ => FileState.noConfusion).rests, hkeeps, .refl start disk⟩
  · have hquiet : f.close disk = .quiet (f, disk) := by
      unfold FileSink.close
      split
      · next spool hstate => exact absurd ⟨spool, hstate⟩ hopen
      · rfl
    rw [hquiet]
    exact ⟨h, hkeeps, .refl start disk⟩

/-- A file that is given up stores what it holds and nothing else. -/
theorem Rests.release (h : f.Rests start whole disk) (hkeeps : start.Keeps whole disk) :
    start.Keeps whole (f.release disk).1 ∧ start.Later disk (f.release disk).1 := by
  rcases hstate : f.state with _ | spool | _ | _
  case opened =>
    rcases htarget : spool.target with name | device
    · obtain ⟨m, hfits, -, hrelease⟩ := exists_release_move hstate htarget
      rw [hrelease disk]
      exact ((h spool name hstate htarget).move hfits hkeeps).2
    · have hsame : (f.release disk).1 = disk := by
        simp [FileSink.release, hstate, (Spool.idle_flush htarget disk).disk]
      rw [hsame]
      exact ⟨hkeeps, .refl start disk⟩
  all_goals
    have hsame : (f.release disk).1 = disk := by simp [FileSink.release, hstate]
    rw [hsame]
    exact ⟨hkeeps, .refl start disk⟩

/-! ### The block that opens a file -/

/-- What a file has stored of the block that opened it: all or nothing. -/
def storedFirst (block : Bytes) (flush : Bool) : Bytes :=
  if flush ∨ spoolSize ≤ block.length then block else []

/-- While the first block is written, every file that was opened has stored as much of it. Another
    path may still lead to that file; then it is emptied, and comes to hold the same again. -/
structure First (start : Disk) (block : Bytes) (flush : Bool) (disk : Disk) : Prop where
  keeps : start.Keeps block disk
  stored : ∀ name, start.Opened disk name → disk.contents name = storedFirst block flush

theorem first_start (start : Disk) (block : Bytes) (flush : Bool) : First start block flush start :=
  ⟨start.keeps_start block, fun name h => absurd h (start.not_opened_start name)⟩

/-- A file was just opened for the first block, and no other has changed. -/
theorem First.opened (h : First start block flush disk) (name : String) :
    start.Keeps block ((disk.put name #[]).hold (.file name)) ∧
      start.Opened ((disk.put name #[]).hold (.file name)) name ∧
      ∀ other, start.Opened ((disk.put name #[]).hold (.file name)) other →
        ((disk.put name #[]).hold (.file name)).contents other =
          if other = name then [] else storedFirst block flush := by
  have hdescriptors : start.descriptors <+: (disk.put name #[]).descriptors := by
    rw [descriptors_put]
    exact h.keeps.descriptors
  have hput (other : String) : start.Opened (disk.put name #[]) other ↔
      start.Opened disk other := by
    unfold Opened
    rw [descriptors_put]
  have hopened (other : String) : start.Opened ((disk.put name #[]).hold (.file name)) other ↔
      start.Opened disk other ∨ name = other := by
    rw [opened_hold hdescriptors, hput, Place.file.injEq]
  have hcontents (other : String) : ((disk.put name #[]).hold (.file name)).contents other =
      if other = name then [] else disk.contents other := disk.contents_put name #[] other
  have hfind (other : String) : ((disk.put name #[]).hold (.file name)).find? other =
      if other = name then some #[] else disk.find? other := disk.find?_put name #[] other
  -- if an earlier path led to the same file, it is emptied and starts anew
  refine ⟨⟨hdescriptors.trans (List.prefix_append _ _), ?_, ?_⟩, (hopened name).2 (Or.inr rfl), ?_⟩
  · intro other hother
    rw [hcontents]
    split
    · exact List.nil_prefix
    · next hne =>
      exact h.keeps.contents other (((hopened other).1 hother).resolve_right (Ne.symm hne))
  · intro other hother
    rw [hopened, not_or] at hother
    rw [hfind, if_neg (Ne.symm hother.2)]
    exact h.keeps.others other hother.1
  · intro other hother
    rw [hcontents]
    split
    · rfl
    · next hne => exact h.stored other (((hopened other).1 hother).resolve_right (Ne.symm hne))

/-- A device was just opened for the first block. -/
theorem First.opened_device (h : First start block flush disk) (device : Device) :
    First start block flush (disk.hold (.device device)) ∧
    disk.descriptors <+: (disk.hold (.device device)).descriptors := by
  have hopened (name : String) : start.Opened (disk.hold (.device device)) name ↔
      start.Opened disk name := by
    rw [opened_hold h.keeps.descriptors]
    exact or_iff_left fun heq => by cases heq
  have hlater : disk.descriptors <+: (disk.hold (.device device)).descriptors :=
    List.prefix_append _ _
  refine ⟨⟨⟨h.keeps.descriptors.trans hlater, fun name hname => ?_, fun name hname => ?_⟩,
    fun name hname => ?_⟩, hlater⟩
  · exact h.keeps.contents name ((hopened name).1 hname)
  · exact h.keeps.others name fun hbefore => hname ((hopened name).2 hbefore)
  · exact h.stored name ((hopened name).1 hname)

def AllOrNone (f : FileSink) : Prop :=
  ∀ spool name, f.state = .opened spool → spool.target = .file name →
    spool.offset = 0 ∨ spool.held = []

/-- Such a file rests even where another path has emptied it. -/
theorem Stands.rests_of_allOrNone (h : f.Stands start bytes disk) (hall : f.AllOrNone)
    (hdescriptors : disk.descriptors <+: disk'.descriptors) : f.Rests start bytes disk' := by
  intro spool name hstate htarget
  have hstands := h spool name hstate htarget
  refine ⟨htarget, hstands.opened.mono hdescriptors, fun hsome => ?_, ?_⟩
  · rw [(hall spool name hstate htarget).resolve_right hsome]
    exact Nat.zero_le _
  · rw [hstands.held]

/-- What the block that opens a file comes to: the file stands at its end, or the block failed. -/
inductive Opens (start : Disk) (block : Bytes) (flush : Bool) (disk : Disk)
    (e : Effect SinkError (FileSink × Disk)) : Prop
  | stands (result : e.result = .ok ()) (first : First start block flush e.state.2)
      (tried : e.state.1.state ≠ .unopened) (stands : e.state.1.Stands start block e.state.2)
      (all : e.state.1.AllOrNone) (descriptors : disk.descriptors <+: e.state.2.descriptors)
  | failed {error : SinkError} (result : e.result = .error error)
      (keeps : start.Keeps block e.state.2) (rests : e.state.1.Rests start block e.state.2)
      (descriptors : disk.descriptors <+: e.state.2.descriptors)

/-- While every file that was opened has stored as much, none gets shorter. -/
theorem First.later (h : First start block flush disk) (h' : First start block flush disk')
    (hdescriptors : disk.descriptors <+: disk'.descriptors) : start.Later disk disk' := by
  refine ⟨hdescriptors, fun name hname => Nat.le_of_eq ?_⟩
  rw [h.stored name hname, h'.stored name (hname.mono hdescriptors)]

/-- A file that was just opened stores the block at once if it has to, or else holds it back. -/
theorem opens_file (h : First start block flush disk) (path name : String)
    (answers : List WriteStep) :
    Opens start block flush disk (writeOpen ⟨path, answers, .opened (.start (.file name) answers)⟩
      ((disk.put name #[]).hold (.file name)) block flush) := by
  obtain ⟨hkeeps, hopened, hcontents⟩ := h.opened name
  have hdescriptors : disk.descriptors <+: ((disk.put name #[]).hold (.file name)).descriptors :=
    disk.descriptors_put name #[] ▸ List.prefix_append _ _
  generalize (disk.put name #[]).hold (.file name) = emptied at *
  have hstands := Spool.stands_start answers hopened
  obtain ⟨m, hfits, hnow, hlater, hwrite⟩ := exists_writeOpen_move
    (f := ⟨path, answers, .opened (.start (.file name) answers)⟩) rfl rfl block flush
  obtain ⟨hrests, hkept, hgrown⟩ := Spool.rests_move hfits rfl hopened
    (fun _ => Nat.zero_le _) List.prefix_rfl hkeeps
  rw [hwrite]
  rcases hresult : m.result with error | _
  · exact .failed hresult hkept (rests_opened hrests) (hdescriptors.trans hgrown.descriptors)
  · have hall : m.stored ++ m.held = block := hfits.all hresult
    -- stored at once, or not at all
    have hstored : m.stored = storedFirst block flush ∧ (m.stored = [] ∨ m.held = []) := by
      unfold storedFirst
      by_cases hatOnce : flush ∨ spoolSize ≤ block.length
      · have hnone := hnow hatOnce hresult
        rw [hnone, List.append_nil] at hall
        rw [if_pos hatOnce]
        exact ⟨hall, Or.inr hnone⟩
      · have hnone := (hlater rfl hatOnce).2
        rw [if_neg hatOnce]
        exact ⟨hnone, Or.inl hnone⟩
    have hempty : emptied.contents name = [] := (hcontents name hopened).trans (if_pos rfl)
    refine .stands hresult ⟨hkept, fun other hother => ?_⟩ FileState.noConfusion
      (stands_opened (hstands.move hfits hresult)) ?_ (hdescriptors.trans hgrown.descriptors)
    · -- the store changes the file itself, and no file that an earlier path led to
      have hbefore := (opened_patch _ _ _).1 hother
      by_cases heq : other = name
      · change (emptied.patch name 0 m.stored).contents other = _
        rw [heq, contents_patch (Nat.zero_le _), hempty, hstored.1]
        simp [overlay]
      · change (emptied.patch name 0 m.stored).contents other = _
        rw [contents_patch_of_ne heq, hcontents other hbefore, if_neg heq]
    · rintro _ _ ⟨⟩ _
      refine hstored.2.imp (fun hnone => ?_) id
      change 0 + m.stored.length = 0
      rw [hnone]
      rfl

/-- **The first block opens a file**, and nothing stands in it but that block or part of it. -/
theorem First.write (h : First start block flush disk) (hunopened : f.state = .unopened) :
    Opens start block flush disk (f.write disk block flush) := by
  obtain ⟨path, answers, state⟩ := f
  cases hunopened
  change Opens start block flush disk ((ofPath path answers).write disk block flush)
  rcases hcreate : disk.create path with fault | ⟨target, opened⟩
  · rw [write_failed hcreate]
    have habsent : Absent ⟨path, answers, .failed⟩ := absent_of_ne fun _ => FileState.noConfusion
    exact .stands rfl h FileState.noConfusion habsent.stands
      (fun spool name hstate htarget => absurd htarget (habsent spool name hstate))
      List.prefix_rfl
  rw [write_opened hcreate]
  -- what a device is given is nowhere on the disk
  rcases create_ok hcreate with ⟨name, rfl, rfl⟩ | ⟨device, rfl, rfl⟩
  · cases opens_file h path name answers with
    | stands result first tried stands all descriptors =>
      exact .stands result first tried stands all descriptors
    | failed result keeps rests descriptors => exact .failed result keeps rests descriptors
  · obtain ⟨hfirst, hdescriptors⟩ := h.opened_device device
    obtain ⟨o, hidle, hwrite⟩ := idle_writeOpen
      (f := ⟨path, answers, .opened (.start (.device device) answers)⟩) rfl rfl
      (disk.hold (.device device)) block flush
    have habsent : Absent ⟨path, answers, .opened o.spool⟩ := absent_device hidle.target
    rcases hresult : (writeOpen ⟨path, answers, .opened (.start (.device device) answers)⟩
      (disk.hold (.device device)) block flush).result with error | _
    · refine .failed hresult ?_ ?_ ?_ <;> dsimp only <;> rw [hwrite]
      · exact hfirst.keeps
      · exact habsent.rests
      · exact hdescriptors
    · refine .stands hresult ?_ ?_ ?_ ?_ ?_ <;> dsimp only <;> rw [hwrite]
      · exact hfirst
      · exact FileState.noConfusion
      · exact habsent.stands
      · exact fun spool name hstate htarget => absurd htarget (habsent spool name hstate)
      · exact hdescriptors

end FileSink

/-! ### All files -/

namespace Sinks

variable {s : Sinks} {released : Bytes} {files : List FileSink}

/-- **What an act does to each file by itself, it does to files in turn until it fails.** The disk
    moves on by `later` steps, and a failing one may do more than that: then `R` is left of what
    holds of the other files. -/
theorem eachFile_keeps (start : Disk) (act : FileSink → Disk → Effect SinkError (FileSink × Disk))
    {I J : Disk → Prop} {P Q R : FileSink → Disk → Prop} {B : Disk → Disk → Prop}
    (hact : ∀ file disk, I disk → P file disk →
      ((act file disk).result = .ok () ∧ I (act file disk).state.2 ∧
        Q (act file disk).state.1 (act file disk).state.2 ∧
          start.Later disk (act file disk).state.2) ∨
      (∃ error, (act file disk).result = .error error) ∧ J (act file disk).state.2 ∧
        R (act file disk).state.1 (act file disk).state.2 ∧
          B disk (act file disk).state.2)
    (hP : ∀ file disk disk', P file disk → start.Later disk disk' → P file disk')
    (hQ : ∀ file disk disk', Q file disk → start.Later disk disk' → Q file disk')
    (hP' : ∀ file disk disk', P file disk → B disk disk' → R file disk')
    (hQ' : ∀ file disk disk', Q file disk → B disk disk' → R file disk')
    (hbreaks : ∀ disk disk' after, start.Later disk disk' → B disk' after →
      B disk after)
    (hdisk : I disk) (hfiles : ∀ file ∈ files, P file disk) :
    let e := eachFile act files disk
    (e.result = .ok () ∧ I e.state.2 ∧ (∀ file ∈ e.state.1, Q file e.state.2) ∧
        start.Later disk e.state.2) ∨
      (∃ error, e.result = .error error) ∧ J e.state.2 ∧ (∀ file ∈ e.state.1, R file e.state.2) ∧
        B disk e.state.2 := by
  induction files generalizing disk with
  | nil => exact Or.inl ⟨rfl, hdisk, fun _ h => absurd h List.not_mem_nil, .refl start disk⟩
  | cons file files ih =>
    rw [List.forall_mem_cons] at hfiles
    dsimp only at ih ⊢
    unfold eachFile
    dsimp only
    rcases hact file disk hdisk hfiles.1 with
      ⟨hok, hI, hdone, hlater⟩ | ⟨⟨error, herror⟩, hJ, hdone, hbreak⟩
    · -- the first file is done, and sees how far the others get
      rw [hok]
      rcases ih hI fun other hmem => hP _ _ _ (hfiles.2 other hmem) hlater with
        ⟨hrest, hlast, hall, hlater'⟩ | ⟨hrest, hlast, hall, hbreak⟩
      · left
        refine ⟨hrest, hlast, ?_, hlater.trans hlater'⟩
        rw [List.forall_mem_cons]
        exact ⟨hQ _ _ _ hdone hlater', hall⟩
      · right
        refine ⟨hrest, hlast, ?_, hbreaks _ _ _ hlater hbreak⟩
        rw [List.forall_mem_cons]
        exact ⟨hQ' _ _ _ hdone hbreak, hall⟩
    · -- the first file fails, and the others are left as they are
      right
      rw [herror]
      refine ⟨⟨error, rfl⟩, hJ, ?_, hbreak⟩
      rw [List.forall_mem_cons]
      exact ⟨hdone, fun other hmem => hP' _ _ _ (hfiles.2 other hmem) hbreak⟩

/-- Files between two blocks: none was opened yet, or each was tried and stands where the last block
    ends. -/
def Stored (start : Disk) (released : Bytes) (s : Sinks) (disk : Disk) : Prop :=
  ((∀ file ∈ s.files, file.state = .unopened) ∧ disk = start ∧ released = []) ∨
    (∀ file ∈ s.files, file.state ≠ .unopened ∧ file.Stands start released disk) ∧
      start.Keeps released disk

/-- Files that nothing but part of `whole` was written to, and that hold back nothing else. -/
def Fits (start : Disk) (whole : Bytes) (s : Sinks) (disk : Disk) : Prop :=
  (∀ file ∈ s.files, file.Rests start whole disk) ∧ start.Keeps whole disk

theorem Stored.fits (h : Stored start released s disk) : Fits start released s disk := by
  rcases h with ⟨hfiles, rfl, rfl⟩ | ⟨hfiles, hkeeps⟩
  · exact ⟨fun file hmem => (FileSink.absent_of_unopened (hfiles file hmem)).rests,
      disk.keeps_start []⟩
  · exact ⟨fun file hmem => (hfiles file hmem).2.rests List.prefix_rfl, hkeeps⟩

/-- The first block opens the files. -/
theorem writeFiles_first (hfiles : ∀ file ∈ s.files, file.state = .unopened) (block : Bytes) :
    Fits disk block (s.writeFiles disk block).state.1 (s.writeFiles disk block).state.2 ∧
      ((s.writeFiles disk block).result = .ok () →
        Stored disk block (s.writeFiles disk block).state.1 (s.writeFiles disk block).state.2) := by
  have hends := eachFile_keeps disk (fun file disk => file.write disk block s.flushEach)
    (I := FileSink.First disk block s.flushEach) (J := disk.Keeps block)
    (P := fun file _ => file.state = .unopened)
    (Q := fun file now => (file.state ≠ .unopened ∧ file.Stands disk block now) ∧ file.AllOrNone)
    (R := fun file now => file.Rests disk block now)
    (B := fun now after => now.descriptors <+: after.descriptors)
    (fun file now hfirst hunopened => by
      cases hfirst.write hunopened with
      | stands result first tried stands all descriptors =>
        exact Or.inl ⟨result, first, ⟨⟨tried, stands⟩, all⟩, hfirst.later first descriptors⟩
      | failed result keeps rests descriptors =>
        exact Or.inr ⟨⟨_, result⟩, keeps, rests, descriptors⟩)
    (fun _ _ _ hunopened _ => hunopened)
    (fun _ _ _ hdone hlater => ⟨⟨hdone.1.1, hdone.1.2.later hlater⟩, hdone.2⟩)
    (fun _ _ _ hunopened _ => (FileSink.absent_of_unopened hunopened).rests)
    (fun _ _ _ hdone hdescriptors => hdone.1.2.rests_of_allOrNone hdone.2 hdescriptors)
    (fun _ _ _ hlater hdescriptors => hlater.descriptors.trans hdescriptors)
    (FileSink.first_start disk block s.flushEach) hfiles
  rcases hends with ⟨hok, hfirst, hall, -⟩ | ⟨⟨error, herror⟩, hkeeps, hall, -⟩
  · exact ⟨⟨fun file hmem => (hall file hmem).1.2.rests List.prefix_rfl, hfirst.keeps⟩,
      fun _ => Or.inr ⟨fun file hmem => (hall file hmem).1, hfirst.keeps⟩⟩
  · exact ⟨⟨hall, hkeeps⟩, fun hok => by cases herror.symm.trans hok⟩

/-- **A block that is written, to all files or until one fails**, leaves nothing in them but part of
    what was written; and if all went well each of them stands where the block ends. -/
theorem Stored.writeFiles (h : Stored start released s disk) (block : Bytes) :
    Fits start (released ++ block) (s.writeFiles disk block).state.1
        (s.writeFiles disk block).state.2 ∧
      ((s.writeFiles disk block).result = .ok () →
        Stored start (released ++ block) (s.writeFiles disk block).state.1
          (s.writeFiles disk block).state.2) := by
  rcases h with ⟨hfiles, rfl, rfl⟩ | ⟨hfiles, hkeeps⟩
  · exact writeFiles_first hfiles block
  have hends := eachFile_keeps start (fun file disk => file.write disk block s.flushEach)
    (I := start.Keeps (released ++ block)) (J := start.Keeps (released ++ block))
    (P := fun file now => file.state ≠ .unopened ∧ file.Stands start released now)
    (Q := fun file now => file.state ≠ .unopened ∧ file.Stands start (released ++ block) now)
    (R := fun file now => file.Rests start (released ++ block) now) (B := start.Later)
    (fun file now hkeeps hfile => by
      have hwrite := hfile.2.writeOpen hfile.1 hkeeps List.prefix_rfl s.flushEach
      rw [← FileSink.write_eq hfile.1] at hwrite
      rcases hresult : (file.write now block s.flushEach).result with error | _
      · exact Or.inr ⟨⟨error, rfl⟩, hwrite.keeps, hwrite.rests, hwrite.later⟩
      · exact Or.inl ⟨rfl, hwrite.keeps, ⟨hwrite.tried, hwrite.stands hresult⟩, hwrite.later⟩)
    (fun _ _ _ hdone hlater => ⟨hdone.1, hdone.2.later hlater⟩)
    (fun _ _ _ hdone hlater => ⟨hdone.1, hdone.2.later hlater⟩)
    (fun _ _ _ hdone hlater => (hdone.2.rests (List.prefix_append _ _)).later hlater)
    (fun _ _ _ hdone hlater => (hdone.2.rests List.prefix_rfl).later hlater)
    (fun _ _ _ hlater hlater' => hlater.trans hlater') (hkeeps.mono (List.prefix_append _ _)) hfiles
  rcases hends with ⟨hok, hkept, hall, -⟩ | ⟨⟨error, herror⟩, hkept, hall, -⟩
  · exact ⟨⟨fun file hmem => (hall file hmem).2.rests List.prefix_rfl, hkept⟩,
      fun _ => Or.inr ⟨hall, hkept⟩⟩
  · exact ⟨⟨hall, hkept⟩, fun hok => by cases herror.symm.trans hok⟩

/-- The pass-through output has no part in what files hold. -/
theorem Fits.congr {s' : Sinks} (h : Fits start whole s disk) (hfiles : s'.files = s.files) :
    Fits start whole s' disk := by
  unfold Fits
  rw [hfiles]
  exact h

/-- **Closing leaves nothing in the files that was not written to them**, and neither does a close
    that fails. -/
theorem Fits.close (h : Fits start whole s disk) :
    Fits start whole (s.close disk).state.1 (s.close disk).state.2 := by
  obtain ⟨hfiles, hkeeps⟩ := h
  let rests (file : FileSink) (now : Disk) := file.Rests start whole now
  have hstays (file : FileSink) (now after : Disk) (h : rests file now)
      (hlater : start.Later now after) : rests file after := FileSink.Rests.later h hlater
  have hends := eachFile_keeps start FileSink.close (I := start.Keeps whole)
    (J := start.Keeps whole) (P := rests) (Q := rests) (R := rests) (B := start.Later)
    (fun file now hkeeps hfile => by
      obtain ⟨hclosed, hkept, hlater⟩ := FileSink.Rests.close hfile hkeeps
      rcases hresult : (file.close now).result with error | _
      · exact Or.inr ⟨⟨error, rfl⟩, hkept, hclosed, hlater⟩
      · exact Or.inl ⟨rfl, hkept, hclosed, hlater⟩)
    hstays hstays hstays hstays (fun _ _ _ hlater hlater' => hlater.trans hlater') hkeeps hfiles
  have hfits : Fits start whole
      { s with files := (eachFile FileSink.close s.files disk).state.1 }
      (eachFile FileSink.close s.files disk).state.2 := by
    rcases hends with ⟨-, hkept, hall, -⟩ | ⟨-, hkept, hall, -⟩ <;> exact ⟨hall, hkept⟩
  unfold Sinks.close
  dsimp only
  split
  · exact hfits
  · obtain ⟨pass, hstate, _⟩ :=
      flushPass_state { s with files := (eachFile FileSink.close s.files disk).state.1 }
    rw [hstate]
    exact hfits.congr rfl

/-- **So does giving the files up.** -/
theorem Fits.release (h : Fits start whole s disk) : start.Keeps whole (s.release disk).1 := by
  obtain ⟨hfiles, hkeeps⟩ := h
  unfold Sinks.release
  generalize s.files = files at hfiles
  induction files generalizing disk with
  | nil => exact hkeeps
  | cons file files ih =>
    rw [List.forall_mem_cons] at hfiles
    obtain ⟨hkept, hlater⟩ := hfiles.1.release hkeeps
    rw [releaseFiles]
    dsimp only
    exact ih hkept fun other hmem => (hfiles.2 other hmem).later hlater

end Sinks

end StreamRelay
