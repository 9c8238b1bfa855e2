/-
  StreamRelay/Proofs/Sink/Opening.lean
  ====================================
  **Output files that are regular or cannot be opened.**

  The first block opens every path in order, and what each is opened as depends on the shape of the
  disk alone (`Disk.openEach`): a path that cannot be opened is skipped, and two paths may lead to
  the same file. A regular file whose stores all get on takes every write and puts nothing on a
  standard output, so sinks of such files never fail (`Attached.writeFiles`). Closed, each file that
  was opened holds all that was written, and no other file has changed (`Attached.close`).
-/
import StreamRelay.Proofs.Sink.Prefixes
import StreamRelay.Proofs.Sink.Storing

namespace StreamRelay

open Disk

def Event.isEmission : Event → Bool
  | .emitted _ _ => true
  | _ => false

variable {start base disk disk' : Disk} {name path : String} {paths : List String} {bytes : Bytes}
  {flush : Bool}
  {targets : List (Option Target)}

/-! ### Opening -/

/-- What paths are opened as for writing, one after the other. A path that cannot be opened leaves
    the disk as it is. -/
def Disk.openEach : Disk → List String → List (Option Target)
  | _, [] => []
  | disk, path :: paths =>
    match disk.create path with
    | .ok (target, opened) => some target :: opened.openEach paths
    | .error _ => none :: disk.openEach paths

def Disk.targetsOf (disk : Disk) (files : List FileSink) : List (Option Target) :=
  disk.openEach (files.map (·.path))

theorem Disk.SameShape.descriptors (h : disk.SameShape disk') :
    disk'.descriptors = disk.descriptors := by
  obtain ⟨_, rfl, _⟩ := h
  rfl

theorem Disk.SameShape.createAt_error (h : disk.SameShape disk') {place : Place} {fault : Fault}
    (herror : disk.createAt place = .error fault) : disk'.createAt place = .error fault := by
  obtain ⟨files, rfl, _⟩ := h
  cases place with
  | folder trail => exact herror
  | file name => cases herror
  | missing trail =>
    simp only [Disk.createAt] at herror ⊢
    split at herror
    · exact herror
    · cases herror
  | device device => cases device <;> first | exact herror | cases herror

/-- **Whether a path can be opened does not depend on contents.** -/
theorem Disk.SameShape.create_error (h : disk.SameShape disk') {fault : Fault}
    (herror : disk.create path = .error fault) :
    disk'.create path = .error fault := by
  unfold Disk.create locate at herror ⊢
  simp only [h.walk_eq path]
  split at herror
  · next hasks => rwa [if_pos hasks]
  · next hasks =>
    rw [if_neg hasks]
    split at herror
    · exact herror
    · exact h.createAt_error herror

/-! ### Regular files take every write -/

namespace FileSink

variable {f : FileSink} {target : Option Target} {answers : List WriteStep}

/-- What a file became that was tried: a regular file whose stores all get on, or a failure. -/
def Became (f : FileSink) : Option Target → Prop
  | none => f.state = .failed
  | some (.file name) => ∃ spool, f.state = .opened spool ∧ spool.target = .file name ∧
      ∀ answer ∈ spool.answers, answer.getsOn
  | some (.device _) => False

/-- What an act on such a file comes to: it succeeds and opens nothing, the file stays what it is,
    and nothing happens but that the contents of files change. -/
structure Serves (target : Option Target) (disk : Disk)
    (e : Effect SinkError (FileSink × Disk)) : Prop where
  result : e.result = .ok ()
  became : e.state.1.Became target
  descriptors : e.state.2.descriptors = disk.descriptors
  events : e.events = []

theorem Became.tried (h : f.Became target) : f.state ≠ .unopened := by
  intro hstate
  rcases target with _ | name | device
  · cases hstate.symm.trans h
  · obtain ⟨spool, hopened, -⟩ := h
    cases hstate.symm.trans hopened
  · exact h

theorem serves_writeOpen {spool : Spool} (hstate : f.state = .opened spool)
    (htarget : spool.target = .file name) (hanswers : ∀ answer ∈ spool.answers, answer.getsOn)
    (disk : Disk) (bytes : Bytes) (flush : Bool) :
    Serves (some (.file name)) disk (f.writeOpen disk bytes flush) := by
  obtain ⟨m, hfits, -, -, hwrite⟩ := exists_writeOpen_move hstate htarget bytes flush
  obtain ⟨hok, hleft⟩ := hfits.getsOn hanswers
  rw [hwrite disk]
  exact ⟨hok, ⟨_, rfl, htarget, hleft⟩, descriptors_patch _ _ _ _, rfl⟩

/-- **A file takes every block** once it was tried. -/
theorem Became.write (h : f.Became target) (disk : Disk) (bytes : Bytes) (flush : Bool) :
    Serves target disk (f.write disk bytes flush) := by
  rw [write_eq h.tried]
  rcases target with _ | name | device
  · have hquiet : f.writeOpen disk bytes flush = .quiet (f, disk) := by
      unfold writeOpen
      rw [show f.state = .failed from h]
    rw [hquiet]
    exact ⟨rfl, h, rfl, rfl⟩
  · obtain ⟨spool, hstate, htarget, hanswers⟩ := h
    exact serves_writeOpen hstate htarget hanswers disk bytes flush
  · exact h.elim

/-- What the first block comes to at a path that is opened as `target`, on a disk of the shape of
    `opened` then. -/
structure Opened (start disk opened : Disk) (target : Option Target)
    (e : Effect SinkError (FileSink × Disk)) : Prop where
  shape : opened.SameShape e.state.2
  result : e.result = .ok ()
  became : e.state.1.Became target
  descriptors : start.descriptors <+: e.state.2.descriptors
  names : ∀ name, start.Opened e.state.2 name ↔
    start.Opened disk name ∨ target = some (.file name)
  events : ∀ event ∈ e.events, event.isEmission = false

theorem shape_writeOpen {spool : Spool} (hstate : f.state = .opened spool)
    (htarget : spool.target = .file name) (hfound : (disk.find? name).isSome) (bytes : Bytes)
    (flush : Bool) : disk.SameShape (f.writeOpen disk bytes flush).state.2 := by
  obtain ⟨m, -, -, -, hwrite⟩ := exists_writeOpen_move hstate htarget bytes flush
  rw [hwrite disk]
  exact sameShape_patch hfound _ _

/-- **The first block opens a path if that can be done**, as on any disk of that shape. -/
theorem Fresh.write (h : f.Fresh) (hshape : base.SameShape disk)
    (hordinary : ∀ device, some (.device device) ∉ base.openEach [f.path])
    (hfront : start.descriptors <+: disk.descriptors) (bytes : Bytes) (flush : Bool) :
    ∃ (target : Option Target) (opened : Disk),
      (∀ paths, base.openEach (f.path :: paths) = target :: opened.openEach paths) ∧
      Opened start disk opened target (f.write disk bytes flush) := by
  rw [h.eq_ofPath]
  rcases hcreate : base.create f.path with fault | ⟨target, opened⟩
  · refine ⟨none, base, by simp [openEach, hcreate, ofPath], ?_⟩
    rw [write_failed (hshape.create_error hcreate)]
    exact ⟨hshape, rfl, rfl, hfront, by simp, by simp [Event.isEmission]⟩
  · rcases target with name | device
    · obtain ⟨hcreate', rfl⟩ := hshape.create hcreate
      refine ⟨some (.file name), (base.put name #[]).hold (.file name),
        by simp [openEach, hcreate, ofPath], ?_⟩
      rw [write_opened hcreate']
      have hfound : (((disk.put name #[]).hold (.file name)).find? name).isSome := by
        have hempty : ((disk.put name #[]).hold (.file name)).find? name = some #[] :=
          (disk.find?_put name #[] name).trans (if_pos rfl)
        rw [hempty]
        rfl
      -- the file is open and empty now, and takes the block as any open file does
      have hopened := (hshape.put name #[] #[]).hold (.file name)
      have hserves := serves_writeOpen (f := ⟨f.path, f.answers, .opened (.start (.file name)
        f.answers)⟩) rfl rfl h.answers ((disk.put name #[]).hold (.file name)) bytes flush
      have hkept := shape_writeOpen (f := ⟨f.path, f.answers, .opened (.start (.file name)
        f.answers)⟩) rfl rfl hfound bytes flush
      have hput : (disk.put name #[]).descriptors = disk.descriptors :=
        disk.descriptors_put name #[]
      refine ⟨hopened.trans hkept, hserves.result, hserves.became, ?_, fun other => ?_, ?_⟩
      · rw [hserves.descriptors]
        exact (hput ▸ hfront).trans (List.prefix_append _ _)
      · have hhold := @opened_hold start (disk.put name #[]) other (hput.symm ▸ hfront)
          (.file name)
        simpa only [Disk.Opened, hserves.descriptors, hput, Place.file.injEq, Option.some.injEq,
          Target.file.injEq] using hhold
      · simp [hserves.events, Event.isEmission]
    · exact absurd (by simp [openEach, hcreate]) (hordinary device)

structure Closes (start : Disk) (bytes : Bytes) (target : Option Target) (disk : Disk)
    (e : Effect SinkError (FileSink × Disk)) : Prop where
  result : e.result = .ok ()
  closed : e.state.1.Settled
  keeps : start.Keeps bytes e.state.2
  later : start.Later disk e.state.2
  descriptors : e.state.2.descriptors = disk.descriptors
  stored : ∀ name, target = some (.file name) →
    start.Opened e.state.2 name ∧ bytes.length ≤ (e.state.2.contents name).length
  events : e.events = []

/-- **A file that is closed has stored all that was written to it.** -/
theorem Became.close (h : f.Became target) (hstands : f.Stands start bytes disk)
    (hkeeps : start.Keeps bytes disk) : Closes start bytes target disk (f.close disk) := by
  rcases target with _ | name | device
  · have hsettled : f.Settled := fun _ hopened => by cases Eq.trans h.symm hopened
    rw [hsettled.close disk]
    exact ⟨rfl, hsettled, hkeeps, .refl start disk, rfl, nofun, rfl⟩
  · obtain ⟨spool, hstate, htarget, hanswers⟩ := h
    obtain ⟨m, hfits, hempty, hclose⟩ := exists_close_move hstate htarget
    have hok := (hfits.getsOn hanswers).1
    have hspool := hstands spool name hstate htarget
    have hafter := hspool.move hfits hok
    obtain ⟨-, hkept, hlater⟩ := (hspool.rests List.prefix_rfl).move hfits hkeeps
    rw [hclose disk, shut, hok]
    refine ⟨rfl, fun _ => FileState.noConfusion, hkept, hlater, descriptors_patch _ _ _ _, ?_, rfl⟩
    rintro _ ⟨⟩
    -- nothing is held back any more, so the spool is at the end
    have hend : (bytes ++ []).drop (m.spool spool).offset = [] :=
      hafter.held.symm.trans (hempty hok)
    rw [List.append_nil] at hend
    exact ⟨hafter.opened, Nat.le_trans (List.drop_eq_nil_iff.1 hend) hafter.stored⟩
  · exact h.elim

end FileSink

/-- **What output files come to**: each regular file that a path was opened as holds the payload,
    and no other file has changed. Without payload nothing has. -/
structure Disk.Filled (start : Disk) (targets : List (Option Target)) (payload : Bytes)
    (disk : Disk) : Prop where
  files : ∀ name, disk.find? name =
    if payload ≠ [] ∧ some (.file name) ∈ targets then some payload.toArray else start.find? name
  untouched : payload = [] → disk = start

/-! ### All files -/

namespace Sinks

variable {s : Sinks} {files : List FileSink}

def AllBecame (targets : List (Option Target)) (files : List FileSink) : Prop :=
  List.Forall₂ (fun target file => file.Became target) targets files

structure Attached (start : Disk) (targets : List (Option Target)) (files : List FileSink)
    (disk : Disk) : Prop where
  opened : ∀ name, start.Opened disk name ↔ some (.file name) ∈ targets
  became : AllBecame targets files

theorem eachFile_serves {act : FileSink → Disk → Effect SinkError (FileSink × Disk)}
    (hact : ∀ target file disk, file.Became target → FileSink.Serves target disk (act file disk))
    (h : AllBecame targets files) (disk : Disk) :
    let e := eachFile act files disk
    e.result = .ok () ∧ AllBecame targets e.state.1 ∧
      e.state.2.descriptors = disk.descriptors ∧ e.events = [] := by
  unfold AllBecame at *
  induction h generalizing disk with
  | nil => exact ⟨rfl, .nil, rfl, rfl⟩
  | @cons target file targets files hfile _ ih =>
    have hfirst := hact target file disk hfile
    obtain ⟨hresult, hall, hdescriptors, hevents⟩ := ih (act file disk).state.2
    unfold eachFile
    dsimp only
    rw [hfirst.result]
    refine ⟨hresult, .cons hfirst.became hall, hdescriptors.trans hfirst.descriptors, ?_⟩
    rw [hfirst.events, List.nil_append]
    exact hevents

/-- **Every block reaches the files.** -/
theorem Attached.writeFiles (h : Attached start targets s.files disk) (bytes : Bytes) :
    (s.writeFiles disk bytes).result = .ok () ∧
      Attached start targets (s.writeFiles disk bytes).state.1.files
        (s.writeFiles disk bytes).state.2 ∧
      ∀ event ∈ (s.writeFiles disk bytes).events, event.isEmission = false := by
  obtain ⟨hresult, hall, hdescriptors, hevents⟩ := eachFile_serves
    (fun target file disk hfile => hfile.write disk bytes s.flushEach) h.became disk
  refine ⟨hresult, ⟨fun name => ?_, hall⟩, fun event hmem => ?_⟩
  · rw [← h.opened name]
    unfold Opened
    exact Iff.of_eq (by rw [← hdescriptors]; rfl)
  · unfold Sinks.writeFiles at hmem
    rw [hevents] at hmem
    cases hmem

theorem eachFile_opens (hfiles : ∀ file ∈ files, file.Fresh) (hshape : base.SameShape disk)
    (hfront : start.descriptors <+: disk.descriptors)
    (hordinary : ∀ device, some (.device device) ∉ base.openEach (files.map (·.path)))
    (bytes : Bytes) (flush : Bool) :
    let e := eachFile (fun file disk => file.write disk bytes flush) files disk
    e.result = .ok () ∧ AllBecame (base.openEach (files.map (·.path))) e.state.1 ∧
      (∀ name, start.Opened e.state.2 name ↔ start.Opened disk name ∨
        some (.file name) ∈ base.openEach (files.map (·.path))) ∧
      ∀ event ∈ e.events, event.isEmission = false := by
  -- what is opened is read off `base`, which has the shape of the disk that is written to
  induction files generalizing base disk with
  | nil => simp [eachFile, Effect.quiet, openEach, AllBecame]
  | cons file files ih =>
    rw [List.forall_mem_cons] at hfiles
    rw [List.map_cons] at hordinary ⊢
    have hhead : ∀ device, some (.device device) ∉ base.openEach [file.path] := by
      intro device hmem
      apply hordinary device
      rw [openEach] at hmem ⊢
      split at hmem <;> simp_all [openEach]
    obtain ⟨target, opened, hopen, hfirst⟩ :=
      hfiles.1.write hshape hhead hfront bytes flush
    rw [hopen] at hordinary ⊢
    have htail : ∀ device, some (.device device) ∉ opened.openEach (files.map (·.path)) :=
      fun device hmem => hordinary device (List.mem_cons_of_mem _ hmem)
    obtain ⟨hresult, hall, hnames, hevents⟩ :=
      ih hfiles.2 hfirst.shape hfirst.descriptors htail
    unfold eachFile
    dsimp only
    rw [hfirst.result]
    refine ⟨hresult, .cons hfirst.became hall, ?_, ?_⟩
    · intro name
      rw [hnames, hfirst.names, List.mem_cons, or_assoc, eq_comm (a := target)]
    · rw [List.forall_mem_append]
      exact ⟨hfirst.events, hevents⟩

/-- **The first block opens every path that can be opened, and reaches it.** -/
theorem Untouched.attach (h : Untouched files start s disk) (hfresh : ∀ file ∈ files, file.Fresh)
    (hordinary : ∀ device, some (.device device) ∉ start.targetsOf files) (bytes : Bytes) :
    (s.writeFiles disk bytes).result = .ok () ∧
      Attached start (start.targetsOf files) (s.writeFiles disk bytes).state.1.files
        (s.writeFiles disk bytes).state.2 ∧
      ∀ event ∈ (s.writeFiles disk bytes).events, event.isEmission = false := by
  obtain ⟨hfiles, rfl, -⟩ := h
  obtain ⟨hresult, hall, hopened, hevents⟩ :=
    eachFile_opens hfresh (.refl disk) List.prefix_rfl hordinary bytes s.flushEach
  unfold Sinks.writeFiles
  rw [hfiles]
  refine ⟨hresult, ⟨fun name => ?_, hall⟩, hevents⟩
  rw [hopened name]
  exact or_iff_right (disk.not_opened_start name)

/-! ### Closing -/

theorem closeFiles_full (hkeeps : start.Keeps bytes disk) (hbecame : AllBecame targets files)
    (hstands : ∀ file ∈ files, file.Stands start bytes disk) :
    let e := eachFile FileSink.close files disk
    e.result = .ok () ∧ (∀ file ∈ e.state.1, file.Settled) ∧
      start.Keeps bytes e.state.2 ∧ start.Later disk e.state.2 ∧
      e.state.2.descriptors = disk.descriptors ∧
      (∀ name, some (.file name) ∈ targets → bytes.length ≤ (e.state.2.contents name).length) ∧
      e.events = [] := by
  unfold AllBecame at hbecame
  induction hbecame generalizing disk with
  | nil =>
    exact ⟨rfl, by simp [eachFile, Effect.quiet], hkeeps, .refl start disk, rfl, by simp, rfl⟩
  | @cons target file targets files hfile _ ih =>
    rw [List.forall_mem_cons] at hstands
    have hfirst := hfile.close hstands.1 hkeeps
    obtain ⟨hresult, hclosed, hkept, hlater, hdescriptors, hstored, hevents⟩ :=
      ih hfirst.keeps fun other hmem => (hstands.2 other hmem).later hfirst.later
    unfold eachFile
    dsimp only
    rw [hfirst.result]
    refine ⟨hresult, ?_, hkept, hfirst.later.trans hlater,
      hdescriptors.trans hfirst.descriptors, ?_, ?_⟩
    · rw [List.forall_mem_cons]
      exact ⟨hfirst.closed, hclosed⟩
    · intro name hmem
      rw [List.mem_cons] at hmem
      rcases hmem with htarget | hmem
      · -- what this file stored was not taken back when those behind it were closed
        obtain ⟨hopened, hfull⟩ := hfirst.stored name htarget.symm
        exact Nat.le_trans hfull (hlater.longer name hopened)
      · exact hstored name hmem
    · rw [hfirst.events, List.nil_append]
      exact hevents

/-- **Closing attached files leaves all that was written in each of them**, and nothing to store
    when they are given up. -/
theorem Attached.close (h : Attached start targets s.files disk)
    (hstored : s.Stored start bytes disk) (hreliable : s.Reliable) (hsome : bytes ≠ []) :
    (s.close disk).result = .ok () ∧ start.Filled targets bytes (s.close disk).state.2 ∧
      (∀ file ∈ (s.close disk).state.1.files, file.Settled) ∧
      ∀ event ∈ (eachFile FileSink.close s.files disk).events, event.isEmission = false := by
  obtain ⟨hfiles, hkeeps⟩ := hstored.resolve_left fun hnone => hsome hnone.2.2
  obtain ⟨hresult, hclosed, hkept, _, hdescriptors, hfull, hevents⟩ :=
    closeFiles_full hkeeps h.became fun file hmem => (hfiles file hmem).2
  obtain ⟨hok, hfiles', hdisk⟩ := close_spec hreliable hresult
  rw [hfiles', hdisk, hevents]
  refine ⟨hok, ⟨fun name => ?_, fun hnone => absurd hnone hsome⟩, hclosed, by simp⟩
  have hopened : start.Opened (eachFile FileSink.close s.files disk).state.2 name ↔
      some (.file name) ∈ targets := by
    rw [← h.opened name]
    unfold Opened
    rw [hdescriptors]
  by_cases hmem : some (.file name) ∈ targets
  · rw [if_pos ⟨hsome, hmem⟩]
    have hfront := hkept.contents name (hopened.2 hmem)
    have hcontents := hfront.eq_of_length_le (hfull name hmem)
    rw [Disk.contents] at hcontents
    rcases hfind : (eachFile FileSink.close s.files disk).state.2.find? name with _ | contents
    · rw [hfind] at hcontents
      exact absurd hcontents.symm hsome
    · rw [hfind, Option.getD_some] at hcontents
      rw [← hcontents, Array.toArray_toList]
  · rw [if_neg fun hboth => hmem hboth.2]
    exact hkept.others name fun hopen => hmem (hopened.1 hopen)

/-- **Files that nothing was written to are left as they were.** -/
theorem Untouched.leave (h : Untouched files start s disk) (hreliable : s.Reliable)
    (targets : List (Option Target)) :
    (s.close disk).result = .ok () ∧ start.Filled targets [] (s.close disk).state.2 ∧
      (∀ file ∈ (s.close disk).state.1.files, file.Settled) ∧
      ∀ event ∈ (eachFile FileSink.close s.files disk).events, event.isEmission = false := by
  have hsettled := h.settled
  have hresult : (eachFile FileSink.close s.files disk).result = .ok () := by
    rw [h.closing]
    rfl
  obtain ⟨hok, hfiles', hdisk⟩ := close_spec hreliable hresult
  rw [hfiles', hdisk, h.closing]
  obtain rfl := h.disk_eq
  exact ⟨hok, ⟨fun name => by simp [Effect.quiet], fun _ => rfl⟩, hsettled, by simp [Effect.quiet]⟩

end Sinks

end StreamRelay
