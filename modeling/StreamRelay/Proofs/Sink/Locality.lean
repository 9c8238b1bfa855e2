/-
  StreamRelay/Proofs/Sink/Locality.lean
  =====================================
  **An output file has to do with nothing on the disk but its own contents.**

  Where a file stands after an operation does not depend on the disk at all, and what the operation
  leaves in it depends on what was in it (`FileSink.Local`). So what sinks do to a file is what they
  would do to it if there were no others: a `Solo` is a file with a disk of its own, and sinks whose
  files are under different names show each of them as it is alone (`eachFile_local`). The first
  block is no exception, although a path may lead elsewhere once other files are open
  (`eachFile_first`).
-/
import StreamRelay.Proofs.Disk.Apart
import StreamRelay.Proofs.Sink.Opening

namespace StreamRelay

open Disk

variable {start base disk disk' : Disk} {name path : String} {name? : Option String}

/-! ### One file -/

namespace FileSink

variable {f : FileSink} {act : FileSink → Disk → Effect SinkError (FileSink × Disk)}
  {answers : List WriteStep}

/-- A file that was tried to be opened. If it is open, it is the regular file of that name, and its
    stores all get on. -/
structure Tried (name? : Option String) (f : FileSink) : Prop where
  ne_unopened : f.state ≠ .unopened
  target : ∀ spool, f.state = .opened spool → ∃ name, name? = some name ∧
    spool.target = .file name ∧ ∀ answer ∈ spool.answers, answer.getsOn

structure Local (name? : Option String) (f : FileSink)
    (act : FileSink → Disk → Effect SinkError (FileSink × Disk)) : Prop where
  result : ∀ disk, (act f disk).result = .ok ()
  tried : ∀ disk, Tried name? (act f disk).state.1
  sink : ∀ disk disk', (act f disk).state.1 = (act f disk').state.1
  others : ∀ disk other, name? ≠ some other →
    (act f disk).state.2.find? other = disk.find? other
  file : ∀ disk disk' name, name? = some name → disk.find? name = disk'.find? name →
    (act f disk).state.2.find? name = (act f disk').state.2.find? name

theorem tried_opened {spool : Spool} (htarget : spool.target = .file name)
    (hanswers : ∀ answer ∈ spool.answers, answer.getsOn) :
    Tried (some name) ⟨path, answers, .opened spool⟩ := by
  refine ⟨FileState.noConfusion, ?_⟩
  rintro _ ⟨⟩
  exact ⟨name, rfl, htarget, hanswers⟩

theorem tried_of_ne (hunopened : f.state ≠ .unopened) (h : ∀ spool, f.state ≠ .opened spool) :
    Tried name? f := ⟨hunopened, fun spool hstate => absurd hstate (h spool)⟩

/-- An act that leaves alone what is not open is local if it is a move of open files. -/
theorem Tried.local_of_move (h : Tried name? f) (given : Bytes)
    (hmove : ∀ spool name, f.state = .opened spool → spool.target = .file name →
      ∃ (m : Move SinkError) (after : FileSink), m.Fits spool given ∧
        (m.result = .ok () →
          after.state = .opened (m.spool spool) ∨ after.state = .closed) ∧
        ∀ disk, act f disk = ⟨(after, m.disk name spool disk), [], m.result⟩)
    (hquiet : (∀ spool, f.state ≠ .opened spool) → ∀ disk, act f disk = .quiet (f, disk)) :
    Local name? f act := by
  by_cases hopen : ∃ spool, f.state = .opened spool
  · obtain ⟨spool, hstate⟩ := hopen
    obtain ⟨name, rfl, htarget, hanswers⟩ := h.target spool hstate
    obtain ⟨m, after, hfits, hafter, hact⟩ := hmove spool name hstate htarget
    obtain ⟨hok, hleft⟩ := hfits.getsOn hanswers
    constructor <;> simp only [hact]
    · exact fun _ => hok
    · intro _
      rcases hafter hok with hopened | hclosed
      · refine ⟨by simp [hopened], fun other hother => ?_⟩
        rw [hopened] at hother
        cases hother
        exact ⟨name, rfl, htarget, hleft⟩
      · exact tried_of_ne (by simp [hclosed]) (by simp [hclosed])
    · simp
    · intro disk other hother
      exact find?_patch_of_ne (fun hsame => hother (congrArg some hsame.symm)) _ _
    · rintro disk disk' _ ⟨⟩ hsame
      exact find?_patch_congr hsame _ _
  · -- nothing moves: neither the file nor the disk
    have hact (disk : Disk) := hquiet (fun spool hstate => hopen ⟨spool, hstate⟩) disk
    constructor <;> simp only [hact, Effect.quiet]
    · exact fun _ => trivial
    · exact fun _ => h
    · simp
    · exact fun _ _ _ => trivial
    · exact fun _ _ _ _ hsame => hsame

/-- **Writing to a file is local.** -/
theorem Tried.local_writeOpen (h : Tried name? f) (bytes : Bytes) (flush : Bool) :
    Local name? f (·.writeOpen · bytes flush) := by
  refine h.local_of_move bytes (fun spool name hstate htarget => ?_) (fun hclosed disk => ?_)
  · obtain ⟨m, hfits, -, -, hwrite⟩ := exists_writeOpen_move hstate htarget bytes flush
    exact ⟨m, _, hfits, fun _ => Or.inl rfl, hwrite⟩
  · unfold writeOpen
    split
    · next spool hstate => exact absurd hstate (hclosed spool)
    · rfl

theorem Tried.local_write (h : Tried name? f) (bytes : Bytes) (flush : Bool) :
    Local name? f (·.write · bytes flush) := by
  have hopen := h.local_writeOpen bytes flush
  have hwrite (disk : Disk) := write_eq h.ne_unopened disk bytes flush
  constructor <;> simp only [hwrite]
  · exact hopen.result
  · exact hopen.tried
  · exact hopen.sink
  · exact hopen.others
  · exact hopen.file

theorem Tried.local_close (h : Tried name? f) : Local name? f (·.close ·) := by
  refine h.local_of_move [] (fun spool name hstate htarget => ?_) (fun hclosed disk => ?_)
  · obtain ⟨m, hfits, -, hclose⟩ := exists_close_move hstate htarget
    refine ⟨m, _, hfits, fun hok => Or.inr ?_, hclose⟩
    rw [shut, hok]
  · unfold close
    split
    · next spool hstate => exact absurd hstate (hclosed spool)
    · rfl

/-- Giving a file up does to the disk what closing it does. -/
theorem release_eq_close (f : FileSink) (disk : Disk) :
    (f.release disk).1 = (f.close disk).state.2 := by
  unfold release close
  split
  · dsimp only
    split <;> rfl
  · rfl

end FileSink

/-! ### All files -/

def Disk.Target.regular? : Option Target → Option String
  | some (.file name) => some name
  | _ => none

/-- What a path is opened as when it is the only one: a regular file, or nothing. -/
inductive Disk.Leads (start : Disk) (path : String) : Option Target → Prop
  | file {name : String}
      (h : start.create path = .ok (.file name, (start.put name #[]).hold (.file name))) :
      Leads start path (some (.file name))
  | none {fault : Fault} (h : start.create path = .error fault) : Leads start path none

/-- **Paths to different files lead there by themselves as well as one after the other.** -/
theorem Disk.leads_openEach {opened : List String} (hgrown : start.Grown opened base)
    {paths : List String} (hregular : ∀ device, some (.device device) ∉ base.openEach paths)
    (hnames : (opened ++ (base.openEach paths).filterMap Target.regular?).Nodup) :
    List.Forall₂ start.Leads paths (base.openEach paths) := by
  induction paths generalizing base opened with
  | nil => exact .nil
  | cons path paths ih =>
    rw [openEach] at hregular hnames ⊢
    rcases hcreate : base.create path with fault | ⟨target, after⟩
    · simp only [hcreate] at hregular hnames ⊢
      obtain ⟨fault', hstart⟩ := hgrown.create_error hcreate
      exact .cons (.none hstart)
        (ih hgrown (fun device hmem => hregular device (List.mem_cons_of_mem _ hmem)) hnames)
    · simp only [hcreate] at hregular hnames ⊢
      rcases target with name | device
      · have hrest :
            (opened ++ [name] ++ (after.openEach paths).filterMap Target.regular?).Nodup := by
          rw [List.append_assoc]
          exact hnames
        -- what was opened before is no longer as it was, but this file is none of those
        have hnew : name ∉ opened := by
          intro hmem
          have hboth := (List.nodup_append.1 (List.nodup_append.1 hrest).1).2.2
          exact hboth name hmem name (List.mem_singleton_self name) rfl
        obtain ⟨-, rfl⟩ := (SameShape.refl base).create hcreate
        exact .cons (.file (hgrown.create_file hcreate hnew))
          (ih (hgrown.openEmpty name)
            (fun device hmem => hregular device (List.mem_cons_of_mem _ hmem)) hrest)
      · exact absurd List.mem_cons_self (hregular device)

/-- An output file with a disk for itself, and the name that it has if it is a regular file. -/
structure Solo where
  name? : Option String
  file : FileSink
  disk : Disk

namespace Solo

def act (act : FileSink → Disk → Effect SinkError (FileSink × Disk)) (a : Solo) : Solo :=
  { a with file := (act a.file a.disk).state.1, disk := (act a.file a.disk).state.2 }

/-- A file among others is as it is alone, and so is what it has on the disk. -/
structure Shown (a : Solo) (file : FileSink) (disk : Disk) : Prop where
  file : file = a.file
  tried : a.file.Tried a.name?
  disk : ∀ name, a.name? = some name → disk.find? name = a.disk.find? name

def names (solos : List Solo) : List String := solos.filterMap Solo.name?

theorem mem_names_cons {a : Solo} {solos : List Solo} :
    name ∈ names (a :: solos) ↔ a.name? = some name ∨ name ∈ names solos := by
  simp [names]

theorem nodup_names_cons {a : Solo} {solos : List Solo} (h : (names (a :: solos)).Nodup) :
    (∀ name, a.name? = some name → name ∉ names solos) ∧ (names solos).Nodup := by
  unfold names at h ⊢
  rcases hname : a.name? with _ | name
  · rw [List.filterMap_cons_none hname] at h
    exact ⟨nofun, h⟩
  · rw [List.filterMap_cons_some hname] at h
    obtain ⟨hnew, hnames⟩ := List.nodup_cons.1 h
    exact ⟨by rintro _ ⟨⟩; exact hnew, hnames⟩

def AllShown (solos : List Solo) (files : List FileSink) (disk : Disk) : Prop :=
  List.Forall₂ (fun a file => a.Shown file disk) solos files

theorem AllShown.congr {solos : List Solo} {files : List FileSink} (h : AllShown solos files disk)
    (hsame : ∀ name ∈ names solos, disk'.find? name = disk.find? name) :
    AllShown solos files disk' := by
  unfold AllShown at *
  induction h with
  | nil => exact .nil
  | @cons a file solos files hhead _ ih =>
    constructor
    · refine ⟨hhead.file, hhead.tried, fun name hname => ?_⟩
      rw [hsame name (mem_names_cons.2 (Or.inl hname))]
      exact hhead.disk name hname
    · apply ih
      intro name hmem
      exact hsame name (mem_names_cons.2 (Or.inr hmem))

theorem AllShown.find?_eq {solos : List Solo} {files : List FileSink}
    (h : AllShown solos files disk) :
    ∀ a ∈ solos, ∀ name, a.name? = some name → disk.find? name = a.disk.find? name := by
  unfold AllShown at h
  induction h with
  | nil => exact nofun
  | cons hhead _ ih => exact List.forall_mem_cons.2 ⟨hhead.disk, ih⟩

theorem AllShown.tried {solos : List Solo} {files : List FileSink} (h : AllShown solos files disk) :
    (∀ a ∈ solos, a.file.Tried a.name?) ∧ ∀ file ∈ files, ∃ name?, file.Tried name? := by
  unfold AllShown at h
  induction h with
  | nil => exact ⟨nofun, nofun⟩
  | @cons a file solos files hhead _ ih =>
    have hfile : file.Tried a.name? := hhead.file ▸ hhead.tried
    exact ⟨List.forall_mem_cons.2 ⟨hhead.tried, ih.1⟩,
      List.forall_mem_cons.2 ⟨⟨a.name?, hfile⟩, ih.2⟩⟩

end Solo

namespace Sinks

open Solo

/-- **What is done to all files in turn is done to each of them as if it were alone**, if no two are
    the same. -/
theorem eachFile_local {act : FileSink → Disk → Effect SinkError (FileSink × Disk)}
    (hact : ∀ (name? : Option String) (file : FileSink), file.Tried name? →
      FileSink.Local name? file act)
    {solos : List Solo} {files : List FileSink} (h : AllShown solos files disk)
    (hnames : (names solos).Nodup) :
    (eachFile act files disk).result = .ok () ∧
      AllShown (solos.map (Solo.act act)) (eachFile act files disk).state.1
        (eachFile act files disk).state.2 ∧
      ∀ other, other ∉ names solos →
        (eachFile act files disk).state.2.find? other = disk.find? other := by
  induction solos generalizing files disk with
  | nil =>
    cases h
    exact ⟨rfl, .nil, fun _ _ => rfl⟩
  | cons a solos ih =>
    obtain ⟨hnew, hnames⟩ := nodup_names_cons hnames
    rcases h with _ | @⟨_, file, _, files, hhead, htail⟩
    obtain ⟨rfl, htried, hdisk⟩ := hhead
    have hlocal := hact a.name? a.file htried
    -- the files behind this one do not see what is done to it, nor it what is done to them
    have htail' : AllShown solos files (act a.file disk).state.2 :=
      AllShown.congr htail fun name hmem => hlocal.others disk name fun hsame =>
        hnew name hsame hmem
    obtain ⟨hresult, hall, hothers⟩ := ih htail' hnames
    rw [eachFile]
    dsimp only
    rw [hlocal.result disk]
    refine ⟨hresult, .cons ⟨hlocal.sink disk a.disk, hlocal.tried a.disk, ?_⟩ hall, ?_⟩
    · intro name hname
      rw [hothers name (hnew name hname)]
      exact hlocal.file disk a.disk name hname (hdisk name hname)
    · intro other hmem
      rw [mem_names_cons, not_or] at hmem
      exact (hothers other hmem.2).trans (hlocal.others disk other hmem.1)

theorem length_openEach (base : Disk) (paths : List String) :
    (base.openEach paths).length = paths.length := by
  induction paths generalizing base with
  | nil => rfl
  | cons path paths ih =>
    rw [openEach]
    split <;> simp [ih]

def unopened (start : Disk) (files : List FileSink) (targets : List (Option Target)) : List Solo :=
  (files.zip targets).map fun (file, target) => ⟨Target.regular? target, file, start⟩

theorem names_unopened (start : Disk) {files : List FileSink} {targets : List (Option Target)}
    (h : targets.length = files.length) :
    names (unopened start files targets) = targets.filterMap Target.regular? := by
  have htargets : (files.zip targets).map Prod.snd = targets :=
    List.map_snd_zip (Nat.le_of_eq h)
  rw [names, unopened, List.filterMap_map]
  conv_rhs => rw [← htargets, List.filterMap_map]
  rfl

/-- What the first block comes to at a path, on a disk where other files were opened before. -/
structure FirstShown (a : Solo) (after disk : Disk) (e : Effect SinkError (FileSink × Disk)) :
    Prop where
  result : e.result = .ok ()
  shape : after.SameShape e.state.2
  shown : a.Shown e.state.1 e.state.2
  others : ∀ other, a.name? ≠ some other → e.state.2.find? other = disk.find? other

variable {file : FileSink}

theorem shown_failed {fault fault' : Fault} (hfile : file.Fresh) (hshape : base.SameShape disk)
    (hcreate : base.create file.path = .error fault)
    (hstart : start.create file.path = .error fault') (bytes : Bytes) (flush : Bool) :
    FirstShown (Solo.act (·.write · bytes flush) ⟨none, file, start⟩) base disk
      (file.write disk bytes flush) := by
  have hwrite (now : Disk) {fault : Fault} (h : now.create file.path = .error fault) :
      file.write now bytes flush =
        ⟨({ file with state := .failed }, now), [.warned (cannotOpen file.path fault)],
          .ok ()⟩ := by
    conv_lhs => rw [hfile.eq_ofPath]
    exact FileSink.write_failed h bytes flush
  rw [hwrite disk (hshape.create_error hcreate)]
  refine ⟨rfl, hshape, ?_, fun _ _ => rfl⟩
  simp only [Solo.act, hwrite start hstart]
  exact ⟨rfl, FileSink.tried_of_ne FileState.noConfusion fun _ => FileState.noConfusion, nofun⟩

theorem shown_opened {after : Disk} (hfile : file.Fresh) (hshape : base.SameShape disk)
    (hcreate : base.create file.path = .ok (.file name, after))
    (hstart : start.create file.path = .ok (.file name, (start.put name #[]).hold (.file name)))
    (bytes : Bytes) (flush : Bool) :
    FirstShown (Solo.act (·.write · bytes flush) ⟨some name, file, start⟩) after disk
      (file.write disk bytes flush) := by
  obtain ⟨hcreate', rfl⟩ := hshape.create hcreate
  have hempty (disk : Disk) : ((disk.put name #[]).hold (.file name)).find? name = some #[] :=
    (disk.find?_put name #[] name).trans (if_pos rfl)
  let opened : FileSink := { file with state := .opened (.start (.file name) file.answers) }
  have hwrite {now after : Disk} (h : now.create file.path = .ok (.file name, after)) :
      file.write now bytes flush =
        { opened.writeOpen after bytes flush with
          events := .opened file.path :: (opened.writeOpen after bytes flush).events } := by
    conv_lhs => rw [hfile.eq_ofPath]
    exact FileSink.write_opened h bytes flush
  have htried : FileSink.Tried (some name) opened := FileSink.tried_opened rfl hfile.answers
  have hlocal := htried.local_writeOpen bytes flush
  have hfound : (((disk.put name #[]).hold (.file name)).find? name).isSome := by
    rw [hempty]
    rfl
  have hkept := FileSink.shape_writeOpen (f := opened) rfl rfl hfound bytes flush
  -- the block does to the file just opened what it does to it on a disk of its own
  rw [hwrite hcreate']
  refine ⟨hlocal.result _, ((hshape.put name #[] #[]).hold (.file name)).trans hkept, ?_, ?_⟩
  · simp only [Solo.act, hwrite hstart]
    refine ⟨hlocal.sink _ _, hlocal.tried _, ?_⟩
    rintro _ ⟨⟩
    exact hlocal.file _ _ name rfl ((hempty disk).trans (hempty start).symm)
  · intro other hother
    have hput : ((disk.put name #[]).hold (.file name)).find? other = disk.find? other :=
      (disk.find?_put name #[] other).trans
        (if_neg fun hsame => hother (congrArg some hsame.symm))
    exact (hlocal.others _ other hother).trans hput

/-- **The first block opens every path as if it were the only one**, if no two lead to the same
    file. -/
theorem eachFile_first {files : List FileSink} (hfiles : ∀ file ∈ files, file.Fresh)
    (hshape : base.SameShape disk)
    (hleads : List.Forall₂ (fun file => start.Leads file.path) files
      (base.openEach (files.map (·.path))))
    (hnames : ((base.openEach (files.map (·.path))).filterMap Target.regular?).Nodup)
    (bytes : Bytes) (flush : Bool) :
    let e := eachFile (·.write · bytes flush) files disk
    e.result = .ok () ∧
      AllShown ((unopened start files (base.openEach (files.map (·.path)))).map
        (Solo.act (·.write · bytes flush))) e.state.1 e.state.2 ∧
      ∀ other, other ∉ (base.openEach (files.map (·.path))).filterMap Target.regular? →
        e.state.2.find? other = disk.find? other := by
  -- `base` has the files that were opened in front, and `disk` their contents as well
  induction files generalizing base disk with
  | nil => exact ⟨rfl, .nil, fun _ _ => rfl⟩
  | cons file files ih =>
    rw [List.forall_mem_cons] at hfiles
    obtain ⟨hfile, hfiles⟩ := hfiles
    rw [List.map_cons] at hleads hnames ⊢
    obtain ⟨target, after, hopens, hfirst⟩ : ∃ target after,
        base.openEach (file.path :: files.map (·.path)) =
          target :: after.openEach (files.map (·.path)) ∧
        FirstShown (Solo.act (·.write · bytes flush) ⟨Target.regular? target, file, start⟩)
          after disk (file.write disk bytes flush) := by
      rcases hcreate : base.create file.path with fault | ⟨target, after⟩
      · have hopens : base.openEach (file.path :: files.map (·.path)) =
            none :: base.openEach (files.map (·.path)) := by simp [openEach, hcreate]
        rw [hopens] at hleads
        rcases hleads with _ | ⟨⟨⟩ | ⟨hstart⟩, -⟩
        exact ⟨none, base, hopens, shown_failed hfile hshape hcreate hstart bytes flush⟩
      · have hopens : base.openEach (file.path :: files.map (·.path)) =
            some target :: after.openEach (files.map (·.path)) := by simp [openEach, hcreate]
        rw [hopens] at hleads
        rcases hleads with _ | ⟨⟨hstart⟩ | _, -⟩
        exact ⟨_, after, hopens, shown_opened hfile hshape hcreate hstart bytes flush⟩
    rw [hopens] at hleads hnames ⊢
    have hrest : ∀ name, Target.regular? target = some name →
        name ∉ (after.openEach (files.map (·.path))).filterMap Target.regular? := by
      intro name hname
      rw [List.filterMap_cons_some hname] at hnames
      exact (List.nodup_cons.1 hnames).1
    obtain ⟨hresult, hall, hothers⟩ := ih hfiles hfirst.shape (List.forall₂_cons.1 hleads).2
      (hnames.sublist ((List.sublist_cons_self _ _).filterMap _))
    unfold eachFile
    dsimp only
    rw [hfirst.result]
    have hshown := hfirst.shown
    refine ⟨hresult, .cons ⟨hshown.file, hshown.tried, ?_⟩ hall, ?_⟩
    · -- the files behind this one leave it alone, as they have other names
      intro name hname
      rw [hothers name (hrest name hname)]
      exact hshown.disk name hname
    · intro other hmem
      have hmem' : Target.regular? target ≠ some other ∧
          other ∉ (after.openEach (files.map (·.path))).filterMap Target.regular? := by
        rw [List.mem_filterMap] at hmem ⊢
        constructor
        · intro hname
          exact hmem ⟨_, List.mem_cons_self, hname⟩
        · rintro ⟨target', htarget', hname⟩
          exact hmem ⟨target', List.mem_cons_of_mem _ htarget', hname⟩
      exact (hothers other hmem'.2).trans (hfirst.others other hmem'.1)

end Sinks

end StreamRelay
