/-
  StreamRelay/Proofs/Sink/Isolation.lean
  ======================================
  **Sinks lose nothing, write nothing twice, and keep their files apart.**

  Sinks are used by calls, in any order and as often as one likes (`Sinks.after`). What becomes of
  an output file can be told from the calls alone (`Lot`): it is untouched until the first block,
  then it has every block, and from the first close on it has what it had then. A file that cannot
  be opened is left out from the first block on.

  Main statement: after any calls each file has its lot, stored or held back; and it is in the same
  state, with the same contents, as it would be if there were no other sinks (`after_isolated`).
-/
import Mathlib.Data.List.Forall2
import StreamRelay.Proofs.Sink.Locality

namespace StreamRelay

open Disk

variable {start disk : Disk} {files : List FileSink} {name : String} {flush : Bool}
  {target : Option Target}

/-! ### Calls -/

inductive SinkCall where
  | files (block : Bytes)
  | pass (block : Bytes)
  | close
deriving DecidableEq, Repr

namespace Sinks

def call (s : Sinks) (disk : Disk) : SinkCall → Effect SinkError (Sinks × Disk)
  | .files block => s.writeFiles disk block
  | .pass block => ⟨((s.writePass block).state, disk), (s.writePass block).events,
      (s.writePass block).result⟩
  | .close => s.close disk

def after (s : Sinks) (disk : Disk) (calls : List SinkCall) : Sinks × Disk :=
  calls.foldl (fun now call => (now.1.call now.2 call).state) (s, disk)

theorem after_cons (s : Sinks) (disk : Disk) (call : SinkCall) (calls : List SinkCall) :
    s.after disk (call :: calls) =
      (s.call disk call).state.1.after (s.call disk call).state.2 calls := rfl

theorem after_concat (s : Sinks) (disk : Disk) (calls : List SinkCall) (call : SinkCall) :
    s.after disk (calls ++ [call]) =
      ((s.after disk calls).1.call (s.after disk calls).2 call).state := by
  simp [after]

end Sinks

/-! ### States only move on -/

/-- A file is opened or given up at the first block, and an open file is closed. -/
def FileState.Moves : FileState → FileState → Prop
  | .unopened, .closed => False
  | .unopened, _ => True
  | .opened _, .opened _ => True
  | .opened _, .closed => True
  | .failed, .failed => True
  | .closed, .closed => True
  | _, _ => False

theorem FileState.moves_refl (state : FileState) : state.Moves state := by
  cases state <;> trivial

namespace FileSink

theorem moves_writeOpen (f : FileSink) (disk : Disk) (bytes : Bytes) (flush : Bool) :
    f.state.Moves (f.writeOpen disk bytes flush).state.1.state := by
  rcases hstate : f.state with _ | spool | _ | _
  · simp [writeOpen, hstate, Effect.quiet, FileState.Moves]
  · simp only [writeOpen, hstate]
    split
    · trivial
    · split <;> trivial
  · simp [writeOpen, hstate, Effect.quiet, FileState.Moves]
  · simp [writeOpen, hstate, Effect.quiet, FileState.Moves]

theorem moves_write (f : FileSink) (disk : Disk) (bytes : Bytes) (flush : Bool) :
    f.state.Moves (f.write disk bytes flush).state.1.state := by
  by_cases hunopened : f.state = .unopened
  · rw [hunopened]
    rcases hcreate : disk.create f.path with fault | ⟨target, opened⟩
    · simp [write, openIfNeeded, hunopened, hcreate, writeOpen, Effect.quiet, FileState.Moves]
    · simp only [write, openIfNeeded, hunopened, hcreate, writeOpen]
      split
      · trivial
      · split <;> trivial
  · rw [write_eq hunopened]
    exact f.moves_writeOpen disk bytes flush

theorem moves_close (f : FileSink) (disk : Disk) : f.state.Moves (f.close disk).state.1.state := by
  unfold close
  split
  · next spool hstate =>
    rw [hstate]
    dsimp only
    split <;> trivial
  · exact f.state.moves_refl

theorem write_ignored {f : FileSink} (h : f.state = .failed ∨ f.state = .closed) (disk : Disk)
    (bytes : Bytes) (flush : Bool) : f.write disk bytes flush = .quiet (f, disk) := by
  rcases h with hstate | hstate <;> simp [write, openIfNeeded, writeOpen, hstate, Effect.quiet]

end FileSink

namespace Sinks

theorem moves_eachFile {act : FileSink → Disk → Effect SinkError (FileSink × Disk)}
    (hact : ∀ (file : FileSink) (disk : Disk), file.state.Moves (act file disk).state.1.state)
    (files : List FileSink) (disk : Disk) :
    List.Forall₂ (fun file file' => file.state.Moves file'.state) files
      (eachFile act files disk).state.1 := by
  induction files generalizing disk with
  | nil => exact .nil
  | cons file files ih =>
    rw [eachFile]
    dsimp only
    split
    · exact .cons (hact file disk) (List.forall₂_same.2 fun file _ => file.state.moves_refl)
    · exact .cons (hact file disk) (ih _)

/-- **No call moves a file back**, whatever the sinks and the disk are. -/
theorem moves_call (s : Sinks) (disk : Disk) (call : SinkCall) :
    List.Forall₂ (fun file file' => file.state.Moves file'.state) s.files
      (s.call disk call).state.1.files := by
  cases call with
  | files block =>
    exact moves_eachFile (fun file disk => file.moves_write disk block s.flushEach) s.files disk
  | pass block =>
    have hfiles : (s.call disk (.pass block)).state.1.files = s.files := files_writePass s block
    rw [hfiles]
    exact List.forall₂_same.2 fun file _ => file.state.moves_refl
  | close =>
    obtain ⟨pass, hclose⟩ := s.close_state disk
    rw [call, hclose]
    exact moves_eachFile FileSink.moves_close s.files disk

end Sinks

/-! ### One file alone -/

namespace Solo

/-- What a call does to a file that is the only one. -/
def call (flush : Bool) (a : Solo) : SinkCall → Solo
  | .files block => a.act (·.write · block flush)
  | .pass _ => a
  | .close => a.act (·.close ·)

def after (flush : Bool) (a : Solo) (calls : List SinkCall) : Solo := calls.foldl (call flush) a

end Solo

namespace Sinks

theorem eachFile_singleton (act : FileSink → Disk → Effect SinkError (FileSink × Disk))
    (file : FileSink) (disk : Disk) :
    (eachFile act [file] disk).state = ([(act file disk).state.1], (act file disk).state.2) := by
  rw [eachFile]
  dsimp only
  split
  · rfl
  · rfl

/-- Sinks that have one file and nothing else do to it what is done to it alone. -/
theorem after_alone (a : Solo) (calls : List SinkCall) :
    (Sinks.mk none [a.file] flush).after a.disk calls =
      (⟨none, [(a.after flush calls).file], flush⟩, (a.after flush calls).disk) := by
  induction calls generalizing a with
  | nil => rfl
  | cons call calls ih =>
    have hcall : ((Sinks.mk none [a.file] flush).call a.disk call).state =
        (⟨none, [(a.call flush call).file], flush⟩, (a.call flush call).disk) := by
      cases call with
      | files block =>
        simp only [Sinks.call, writeFiles, eachFile_singleton]
        rfl
      | pass block => rfl
      | close =>
        simp only [Sinks.call, close, eachFile_singleton]
        split <;> rfl
    rw [after_cons, hcall]
    exact ih _

end Sinks

/-! ### What becomes of a file -/

/-- What becomes of an output file that can be opened. -/
inductive Lot where
  | untouched
  | written (bytes : Bytes)
  | closed (bytes : Bytes)
deriving DecidableEq, Repr

namespace Lot

def step : Lot → SinkCall → Lot
  | .untouched, .files block => .written block
  | .written bytes, .files block => .written (bytes ++ block)
  | .written bytes, .close => .closed bytes
  | lot, _ => lot

def of (calls : List SinkCall) : Lot := calls.foldl step .untouched

def bytes? : Lot → Option Bytes
  | .untouched => none
  | .written bytes => some bytes
  | .closed bytes => some bytes

end Lot

@[simp] theorem Lot.of_concat (calls : List SinkCall) (call : SinkCall) :
    Lot.of (calls ++ [call]) = (Lot.of calls).step call := by
  simp [Lot.of]

@[simp] theorem Solo.after_concat (a : Solo) (calls : List SinkCall) (call : SinkCall) :
    a.after flush (calls ++ [call]) = (a.after flush calls).call flush call := by
  simp [Solo.after]

namespace FileSink

variable {f : FileSink} {before : Bytes}

/-- A file has its lot. What is written to a regular file is on the disk or held back, and all on
    the disk if every write is flushed; once it is closed, all of it is on the disk. -/
def Fares (start : Disk) (flush : Bool) (target : Option Target) (file : FileSink) (disk : Disk) :
    Lot → Prop
  | .untouched => file.state = .unopened ∧ ∀ name, target = some (.file name) →
      disk.find? name = start.find? name
  | .written bytes =>
    match target with
    | some (.file name) => file.Holds name bytes disk ∧ (flush = true → disk.contents name = bytes)
    | _ => file.state = .failed
  | .closed bytes =>
    match target with
    | some (.file name) => file.Closed name bytes disk
    | _ => file.state = .failed

theorem Fares.congr {disk' : Disk} {lot : Lot} (h : f.Fares start flush target disk lot)
    (hsame : ∀ name, Target.regular? target = some name → disk'.find? name = disk.find? name) :
    f.Fares start flush target disk' lot := by
  rcases target with _ | name | device
  · cases lot with
    | untouched => exact ⟨h.1, fun _ h => by cases h⟩
    | written bytes => exact h
    | closed bytes => exact h
  · have hfile := hsame name rfl
    cases lot with
    | untouched =>
      refine ⟨h.1, ?_⟩
      rintro _ ⟨⟩
      exact hfile.trans (h.2 name rfl)
    | written bytes =>
      refine ⟨h.1.congr hfile, fun hflush => ?_⟩
      rw [contents, hfile]
      exact h.2 hflush
    | closed bytes => exact Closed.congr h hfile
  · cases lot with
    | untouched => exact ⟨h.1, fun _ h => by cases h⟩
    | written bytes => exact h
    | closed bytes => exact h

end FileSink

namespace Solo

theorem call_ignored {a : Solo} (h : a.file.state = .failed ∨ a.file.state = .closed)
    (call : SinkCall) :
    a.call flush call = a := by
  cases call with
  | files block => rw [Solo.call, act, FileSink.write_ignored h]; rfl
  | pass block => rfl
  | close => rcases h with hstate | hstate <;>
    simp [Solo.call, act, FileSink.close, hstate, Effect.quiet]

@[simp] theorem name?_after (a : Solo) (calls : List SinkCall) :
    (a.after flush calls).name? = a.name? := by
  induction calls using List.reverseRecOn with
  | nil => rfl
  | append_singleton calls call ih =>
    rw [after_concat, ← ih]
    cases call <;> rfl

theorem after_untouched {name? : Option String} {file : FileSink} {calls : List SinkCall}
    (hfile : file.state = .unopened) (h : Lot.of calls = .untouched) :
    (Solo.mk name? file start).after flush calls = ⟨name?, file, start⟩ := by
  induction calls using List.reverseRecOn with
  | nil => rfl
  | append_singleton calls call ih =>
    rw [Lot.of_concat] at h
    rcases hlot : Lot.of calls with _ | bytes | bytes
    · rw [after_concat, ih hlot]
      rw [hlot] at h
      cases call with
      | files block => cases h
      | pass block => rfl
      | close => simp [Solo.call, act, FileSink.close, hfile, Effect.quiet]
    · rw [hlot] at h
      cases call <;> cases h
    · rw [hlot] at h
      cases call <;> cases h

theorem fares_call {a : Solo} {lot : Lot} (h : a.file.Fares start flush target a.disk lot)
    (htried : lot ≠ .untouched) (call : SinkCall) :
    (a.call flush call).file.Fares start flush target (a.call flush call).disk (lot.step call) := by
  have hfailed (hstate : a.file.state = .failed) : a.call flush call = a :=
    call_ignored (Or.inl hstate) call
  cases lot with
  | untouched => exact absurd rfl htried
  | written bytes =>
    rcases target with _ | name | device
    · rw [hfailed h]
      cases call <;> exact h
    · obtain ⟨hholds, hstored⟩ := h
      cases call with
      | files block =>
        have hopened : a.file.state ≠ .unopened := by
          obtain ⟨spool, hstate, -⟩ := hholds
          rw [hstate]
          exact FileState.noConfusion
        simp only [Solo.call, act, FileSink.write_eq hopened]
        exact hholds.writeOpen block flush
      | pass block => exact ⟨hholds, hstored⟩
      | close => exact hholds.close
    · rw [hfailed h]
      cases call <;> exact h
  | closed bytes =>
    have hstep : (Lot.closed bytes).step call = .closed bytes := by cases call <;> rfl
    rw [hstep]
    rcases target with _ | name | device
    · rw [hfailed h]
      exact h
    · rw [call_ignored (Or.inr h.1)]
      exact h
    · rw [hfailed h]
      exact h

/-- **A file that is the only one has its lot.** -/
theorem fares_after {file : FileSink} (hfile : file.Fresh) (hleads : start.Leads file.path target)
    (flush : Bool) (calls : List SinkCall) :
    let a := (Solo.mk (Target.regular? target) file start).after flush calls
    a.file.Fares start flush target a.disk (Lot.of calls) := by
  induction calls using List.reverseRecOn with
  | nil => exact ⟨hfile.unopened, fun _ _ => rfl⟩
  | append_singleton calls call ih =>
    rw [Lot.of_concat, after_concat]
    by_cases hlot : Lot.of calls = .untouched
    · rw [hlot, after_untouched hfile.unopened hlot]
      cases call with
      | files block =>
        -- the first block opens the file, and finds it empty
        cases hleads with
        | @file name hcreate =>
          have hempty : ((start.put name #[]).hold (.file name)).find? name = some #[] :=
            (start.find?_put name #[] name).trans (if_pos rfl)
          have hholds : FileSink.Holds name []
              ⟨file.path, file.answers, .opened (.start (.file name) file.answers)⟩
              ((start.put name #[]).hold (.file name)) :=
            ⟨_, rfl, Spool.holds_start hfile.answers hempty⟩
          rw [hfile.eq_ofPath]
          simp only [Solo.call, act, FileSink.write_opened hcreate]
          exact hholds.writeOpen block flush
        | none hcreate =>
          rw [hfile.eq_ofPath]
          simp only [Solo.call, act, FileSink.write_failed hcreate]
          rfl
      | pass block => exact ⟨hfile.unopened, fun _ _ => rfl⟩
      | close =>
        have hclose : file.close start = .quiet (file, start) := by
          simp [FileSink.close, hfile.unopened]
        simp only [Solo.call, act, hclose]
        exact ⟨hfile.unopened, fun _ _ => rfl⟩
    · exact fares_call ih hlot call

end Solo

/-- All that a file was given is on the disk once it is given up. -/
theorem FileSink.Fares.release {f : FileSink} {lot : Lot} {bytes : Bytes}
    (h : f.Fares start flush (some (.file name)) disk lot) (hbytes : lot.bytes? = some bytes) :
    (f.release disk).1.contents name = bytes := by
  cases lot with
  | untouched => cases hbytes
  | written written =>
    cases hbytes
    exact h.1.release
  | closed written =>
    cases hbytes
    simpa [FileSink.release, h.1] using h.2

/-! ### All files together -/

namespace Sinks

variable {s : Sinks} {calls : List SinkCall}

/-- What the files come to if each of them is the only one. -/
def soloAfter (start : Disk) (files : List FileSink) (flush : Bool) (calls : List SinkCall) :
    List Solo :=
  (unopened start files (start.targetsOf files)).map (Solo.after flush · calls)

def regularNames (start : Disk) (files : List FileSink) : List String :=
  (start.targetsOf files).filterMap Target.regular?

/-- Sinks after some calls: as yet untouched, or with each file as it is alone. -/
structure Together (start : Disk) (files : List FileSink) (flush : Bool) (calls : List SinkCall)
    (s : Sinks) (disk : Disk) : Prop where
  flushEach : s.flushEach = flush
  untouched : Lot.of calls = .untouched → Untouched files start s disk
  shown : Lot.of calls ≠ .untouched →
    Solo.AllShown (soloAfter start files flush calls) s.files disk
  others : ∀ other, other ∉ regularNames start files → disk.find? other = start.find? other

theorem length_targetsOf (start : Disk) (files : List FileSink) :
    (start.targetsOf files).length = files.length :=
  (length_openEach start _).trans (List.length_map _)

theorem names_soloAfter (start : Disk) (files : List FileSink) (flush : Bool)
    (calls : List SinkCall) :
    Solo.names (soloAfter start files flush calls) = regularNames start files := by
  rw [regularNames, ← names_unopened start (length_targetsOf start files), soloAfter, Solo.names,
    List.filterMap_map]
  simp only [Function.comp_def, Solo.name?_after]
  rfl

theorem soloAfter_untouched (start : Disk) (hunopened : ∀ file ∈ files, file.state = .unopened)
    (h : Lot.of calls = .untouched) :
    soloAfter start files flush calls = unopened start files (start.targetsOf files) := by
  rw [soloAfter, unopened, List.map_map]
  apply List.map_congr_left
  rintro ⟨file, target⟩ hmem
  exact Solo.after_untouched (hunopened file (List.of_mem_zip hmem).1) h

theorem soloAfter_concat (start : Disk) (files : List FileSink) (flush : Bool)
    (calls : List SinkCall) (call : SinkCall) :
    soloAfter start files flush (calls ++ [call]) =
      (soloAfter start files flush calls).map (Solo.call flush · call) := by
  simp [soloAfter]

variable (hfresh : ∀ file ∈ files, file.Fresh)
  (hleads : List.Forall₂ (fun file => start.Leads file.path) files (start.targetsOf files))
  (hnames : (regularNames start files).Nodup)

include hfresh hleads hnames in
theorem Together.writeFiles (h : Together start files flush calls s disk) (block : Bytes) :
    (s.writeFiles disk block).result = .ok () ∧
      Together start files flush (calls ++ [.files block]) (s.writeFiles disk block).state.1
        (s.writeFiles disk block).state.2 := by
  have hflush := h.flushEach
  have hwritten : Lot.of (calls ++ [.files block]) ≠ .untouched := by
    rw [Lot.of_concat]
    cases Lot.of calls <;> exact Lot.noConfusion
  by_cases hlot : Lot.of calls = .untouched
  · -- the first block opens every file
    obtain ⟨hfiles, rfl, hunopened⟩ := h.untouched hlot
    obtain ⟨hresult, hall, hothers⟩ :=
      eachFile_first hfresh (.refl disk) hleads hnames block flush
    unfold Sinks.writeFiles
    rw [hfiles, hflush]
    refine ⟨hresult, rfl, fun hnone => absurd hnone hwritten, fun _ => ?_, hothers⟩
    rw [soloAfter_concat, soloAfter_untouched disk hunopened hlot]
    exact hall
  · -- an open file is written to without a look at the others
    have hnames' := hnames
    rw [← names_soloAfter start files flush calls] at hnames'
    obtain ⟨hresult, hall, hothers⟩ :=
      eachFile_local (fun _ _ hfile => hfile.local_write block flush) (h.shown hlot) hnames'
    rw [names_soloAfter] at hothers
    unfold Sinks.writeFiles
    rw [hflush]
    refine ⟨hresult, rfl, fun hnone => absurd hnone hwritten, fun _ => ?_, fun other hother => ?_⟩
    · rw [soloAfter_concat]
      exact hall
    · exact (hothers other hother).trans (h.others other hother)

include hnames in
theorem Together.close (h : Together start files flush calls s disk) :
    Together start files flush (calls ++ [.close]) (s.close disk).state.1
      (s.close disk).state.2 := by
  obtain ⟨pass, hclose⟩ := s.close_state disk
  rw [hclose]
  by_cases hlot : Lot.of calls = .untouched
  · -- files that were never written to are not closed: there is nothing of theirs on the disk
    have hstays : Lot.of (calls ++ [.close]) = .untouched := by
      rw [Lot.of_concat, hlot]
      rfl
    have huntouched := h.untouched hlot
    rw [huntouched.closing]
    exact ⟨h.flushEach, fun _ => ⟨huntouched.files_eq, huntouched.disk_eq, huntouched.unopened⟩,
      fun hsome => absurd hstays hsome, h.others⟩
  · have hclosed : Lot.of (calls ++ [.close]) ≠ .untouched := by
      rw [Lot.of_concat]
      rcases hof : Lot.of calls with _ | bytes | bytes
      · exact absurd hof hlot
      · exact Lot.noConfusion
      · exact Lot.noConfusion
    have hnames' := hnames
    rw [← names_soloAfter start files flush calls] at hnames'
    obtain ⟨-, hall, hothers⟩ :=
      eachFile_local (fun _ _ hfile => hfile.local_close) (h.shown hlot) hnames'
    rw [names_soloAfter] at hothers
    refine ⟨h.flushEach, fun hnone => absurd hnone hclosed, fun _ => ?_, fun other hother => ?_⟩
    · rw [soloAfter_concat]
      exact hall
    · exact (hothers other hother).trans (h.others other hother)

theorem Together.writePass (h : Together start files flush calls s disk) (block : Bytes) :
    Together start files flush (calls ++ [.pass block]) (s.writePass block).state disk := by
  have hlot : Lot.of (calls ++ [.pass block]) = Lot.of calls := by
    rw [Lot.of_concat]
    cases Lot.of calls <;> rfl
  obtain ⟨pass, hstate, -⟩ := s.writePass_state block
  rw [hstate]
  constructor
  · exact h.flushEach
  · rw [hlot]
    intro hnone
    obtain ⟨hfiles, hdisk, hunopened⟩ := h.untouched hnone
    exact ⟨hfiles, hdisk, hunopened⟩
  · have hnothing : (Solo.call flush · (.pass block)) = id := rfl
    rw [hlot, soloAfter_concat, hnothing, List.map_id]
    exact h.shown
  · exact h.others

include hfresh hleads hnames in
/-- **Any calls do to all files what they do to each of them alone.** -/
theorem together_after (pass : Option Outlet) (flush : Bool) (calls : List SinkCall) :
    Together start files flush calls ((Sinks.mk pass files flush).after start calls).1
      ((Sinks.mk pass files flush).after start calls).2 := by
  induction calls using List.reverseRecOn with
  | nil =>
    exact ⟨rfl, fun _ => ⟨rfl, rfl, fun file hmem => (hfresh file hmem).unopened⟩,
      fun hsome => absurd rfl hsome, fun _ _ => rfl⟩
  | append_singleton calls call ih =>
    rw [after_concat]
    cases call with
    | files block => exact (ih.writeFiles hfresh hleads hnames block).2
    | pass block => exact ih.writePass block
    | close => exact ih.close hnames

/-! ### What is on the disk -/

theorem releaseFiles_eq_close {files : List FileSink}
    (h : ∀ file ∈ files, ∃ name?, file.Tried name?) (disk : Disk) :
    (releaseFiles files disk).1 = (eachFile FileSink.close files disk).state.2 := by
  induction files generalizing disk with
  | nil => rfl
  | cons file files ih =>
    rw [List.forall_mem_cons] at h
    obtain ⟨name?, htried⟩ := h.1
    rw [releaseFiles, eachFile]
    dsimp only
    rw [htried.local_close.result disk, file.release_eq_close disk]
    exact ih h.2 _

include hnames in
/-- **Sinks that are given up leave in each file what it would have if it were the only one.** -/
theorem Together.release (h : Together start files flush calls s disk) {file : FileSink}
    (hmem : (file, some (.file name)) ∈ files.zip (start.targetsOf files)) :
    let a := (Solo.mk (some name) file start).after flush calls
    disk.find? name = a.disk.find? name ∧
      (s.release disk).1.find? name = (a.file.release a.disk).1.find? name := by
  dsimp only
  by_cases hlot : Lot.of calls = .untouched
  · have huntouched := h.untouched hlot
    have hunopened := huntouched.unopened file (List.of_mem_zip hmem).1
    have hrelease : (file.release start).1 = start := by simp [FileSink.release, hunopened]
    rw [Solo.after_untouched hunopened hlot, huntouched.release_eq, huntouched.disk_eq, hrelease]
    exact ⟨rfl, rfl⟩
  · have hshown := h.shown hlot
    have hsolo : (Solo.mk (some name) file start).after flush calls ∈
        soloAfter start files flush calls :=
      List.mem_map_of_mem (List.mem_map_of_mem (f := fun item => Solo.mk _ _ _) hmem)
    rw [← names_soloAfter start files flush calls] at hnames
    have hclosed := (eachFile_local (fun _ _ hfile => hfile.local_close) hshown hnames).2.1
    obtain ⟨hsolos, hfiles⟩ := hshown.tried
    rw [release, releaseFiles_eq_close hfiles, FileSink.release_eq_close]
    refine ⟨hshown.find?_eq _ hsolo name (Solo.name?_after _ _), ?_⟩
    exact hclosed.find?_eq _ (List.mem_map_of_mem hsolo) name (Solo.name?_after _ _)

theorem Together.shows (h : Together start files flush calls s disk) :
    List.Forall₂ (fun (item : FileSink × Option Target) file =>
        let a := (Solo.mk (Target.regular? item.2) item.1 start).after flush calls
        file = a.file ∧
          ∀ name, Target.regular? item.2 = some name → disk.find? name = a.disk.find? name)
      (files.zip (start.targetsOf files)) s.files := by
  by_cases hlot : Lot.of calls = .untouched
  · obtain ⟨hfiles, rfl, hunopened⟩ := h.untouched hlot
    have hzip : (files.zip (disk.targetsOf files)).map Prod.fst = files :=
      List.map_fst_zip (Nat.le_of_eq (length_targetsOf disk files).symm)
    rw [hfiles]
    conv_rhs => rw [← hzip]
    rw [List.forall₂_map_right_iff, List.forall₂_same]
    rintro ⟨file, target⟩ hmem
    dsimp only
    rw [Solo.after_untouched (hunopened file (List.of_mem_zip hmem).1) hlot]
    exact ⟨rfl, fun _ _ => rfl⟩
  · have hshown := h.shown hlot
    rw [Solo.AllShown, soloAfter, List.forall₂_map_left_iff, unopened,
      List.forall₂_map_left_iff] at hshown
    refine hshown.imp fun item file hfile => ⟨hfile.file, fun name hname => ?_⟩
    exact hfile.disk name ((Solo.name?_after _ _).trans hname)

/-- **Sinks lose nothing, write nothing twice, and keep their files apart.** Let the files be such
    that nothing was written to them yet and every store gets on, in as many parts as it likes; let
    their paths lead to different regular files or be such that they cannot be opened; and let any
    calls be made. Then each file has its lot, stored or held back, and is in the state that it
    would be in if it were the only one; and so is what it has on the disk, before the sinks are
    given up and after, when all that it was given is there. No other file has changed. Blocks for
    the files never fail, no call moves a file back, and blocks for files that failed or were closed
    are ignored. -/
theorem after_isolated (hfresh : ∀ file ∈ files, file.Fresh)
    (hregular : ∀ device, some (.device device) ∉ start.targetsOf files)
    (hdistinct : ((start.targetsOf files).filterMap Target.regular?).Nodup)
    (pass : Option Outlet) (flush : Bool) (calls : List SinkCall) :
    let together := (Sinks.mk pass files flush).after start calls
    let alone (file : FileSink) := (Sinks.mk none [file] flush).after start calls
    List.Forall₂ (fun item file =>
        file.Fares start flush item.2 together.2 (Lot.of calls) ∧
          (alone item.1).1.files = [file])
        (files.zip (start.targetsOf files)) together.1.files ∧
      (∀ file name, (file, some (.file name)) ∈ files.zip (start.targetsOf files) →
        together.2.find? name = (alone file).2.find? name ∧
          (together.1.release together.2).1.find? name =
            ((alone file).1.release (alone file).2).1.find? name ∧
          ∀ bytes, (Lot.of calls).bytes? = some bytes →
            (together.1.release together.2).1.contents name = bytes) ∧
      (∀ other, some (.file other) ∉ start.targetsOf files →
        together.2.find? other = start.find? other) ∧
      (∀ block, (together.1.writeFiles together.2 block).result = .ok ()) ∧
      (∀ call, List.Forall₂ (fun file file' => file.state.Moves file'.state) together.1.files
        (together.1.call together.2 call).state.1.files) ∧
      ∀ file ∈ together.1.files, file.state = .failed ∨ file.state = .closed →
        ∀ disk block, file.write disk block flush = .quiet (file, disk) := by
  have hleads : List.Forall₂ (fun file => start.Leads file.path) files (start.targetsOf files) :=
    List.forall₂_map_left_iff.1 (Disk.leads_openEach (grown_start start) hregular hdistinct)
  have hzip : ∀ item ∈ files.zip (start.targetsOf files), start.Leads item.1.path item.2 :=
    fun _ hmem => (List.forall₂_iff_zip.1 hleads).2 hmem
  have h := together_after hfresh hleads hdistinct pass flush calls
  have halone (file : FileSink) (name? : Option String) :
      (Sinks.mk none [file] flush).after start calls =
        (⟨none, [((Solo.mk name? file start).after flush calls).file], flush⟩,
          ((Solo.mk name? file start).after flush calls).disk) :=
    after_alone (Solo.mk name? file start) calls
  dsimp only
  refine ⟨?_, ?_, ?_, fun block => (h.writeFiles hfresh hleads hdistinct block).1,
    moves_call _ _, fun file _ hstate disk block => FileSink.write_ignored hstate disk block flush⟩
  · -- each file is as it would be alone, and alone it fares well
    have hitems : ∀ item ∈ files.zip (start.targetsOf files),
        item.1.Fresh ∧ start.Leads item.1.path item.2 := fun item hmem =>
      ⟨hfresh item.1 (List.of_mem_zip hmem).1, hzip item hmem⟩
    refine ((List.forall₂_and_left _ _).2 ⟨hitems, h.shows⟩).imp ?_
    rintro item file ⟨⟨hfile, hitem⟩, rfl, hsame⟩
    refine ⟨(Solo.fares_after hfile hitem flush calls).congr hsame, ?_⟩
    rw [halone item.1 (Target.regular? item.2)]
  · intro file name hmem
    obtain ⟨hnow, hgiven⟩ := h.release hdistinct hmem
    have hfares := Solo.fares_after (hfresh file (List.of_mem_zip hmem).1) (hzip _ hmem) flush
      calls
    rw [halone file (some name)]
    refine ⟨hnow, hgiven, fun bytes hbytes => ?_⟩
    rw [contents, hgiven]
    exact hfares.release hbytes
  · -- what no path leads to is no regular target either
    intro other hother
    apply h.others
    intro hmem
    obtain ⟨target, htarget, hname⟩ := List.mem_filterMap.1 hmem
    rcases target with _ | name | device
    · cases hname
    · cases hname
      exact hother htarget
    · cases hname

/-- Two files, one of them with stores in parts, and a path that cannot be opened: a close before
    the first block does nothing, and a block behind the second close is ignored. -/
theorem after_isolated_two_files :
    let files := [.ofPath "a", .ofPath "missing/x", .ofPath "b" [.accept 1, .interrupted]]
    let together := (Sinks.mk none files false).after (Disk.ofFiles [("b", [9])])
      [.close, .files [1], .pass [7], .files [2], .close, .files [3]]
    together.1.files.map (·.state) = [.closed, .failed, .closed] ∧
      together.2.contents "a" = [1, 2] ∧ together.2.contents "b" = [1, 2] := by
  have hopens : (Disk.ofFiles [("b", [9])]).targetsOf
      [.ofPath "a", .ofPath "missing/x", .ofPath "b" [.accept 1, .interrupted]] =
      [some (.file "a"), none, some (.file "b")] := by decide +kernel
  have hfresh : ∀ file ∈ [.ofPath "a", .ofPath "missing/x", .ofPath "b" [.accept 1, .interrupted]],
      FileSink.Fresh file := by
    simp only [List.forall_mem_cons]
    exact ⟨⟨rfl, by decide⟩, ⟨rfl, by decide⟩, ⟨rfl, by decide⟩, fun _ h => by cases h⟩
  have hregular : ∀ device, some (.device device) ∉ (Disk.ofFiles [("b", [9])]).targetsOf
      [.ofPath "a", .ofPath "missing/x", .ofPath "b" [.accept 1, .interrupted]] := by
    rw [hopens]
    simp
  have hlots := (after_isolated hfresh hregular (by rw [hopens]; decide) none false
    [.close, .files [1], .pass [7], .files [2], .close, .files [3]]).1
  rw [hopens] at hlots
  dsimp only
  generalize (Sinks.mk none _ false).after _ _ = together at hlots ⊢
  obtain ⟨⟨pass, after, flush⟩, disk⟩ := together
  have hlot : Lot.of [.close, .files [1], .pass [7], .files [2], .close, .files [3]] =
      .closed [1, 2] := rfl
  simp only [hlot] at hlots
  rcases hlots with _ | ⟨⟨hfirst, -⟩, _ | ⟨⟨hsecond, -⟩, _ | ⟨⟨hthird, -⟩, ⟨⟩⟩⟩⟩
  exact ⟨by simp [hfirst.1, show _ = _ from hsecond, hthird.1], hfirst.2, hthird.2⟩

end Sinks

end StreamRelay
