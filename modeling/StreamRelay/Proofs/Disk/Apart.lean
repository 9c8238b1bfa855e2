/-
  StreamRelay/Proofs/Disk/Apart.lean
  ==================================
  **What a path is opened as, when other files were opened before it.**

  A file that is opened for writing is there afterwards, and so is its number among what the program
  has open. Both may change where a path leads, but only to that file or to what the system tells of
  its number (`Foreign`). So a path that is opened as a file of its own is opened as the same file
  when nothing was opened before, and a path that cannot be opened cannot be opened then either
  (`Grown.create_file`, `Grown.create_error`).
-/
import StreamRelay.Proofs.Disk.Keeping

namespace StreamRelay.Disk

variable {start disk after : Disk} {names : List String} {name path : String}

/-- A disk on which some files were opened for writing, one after the other. -/
structure Grown (start : Disk) (names : List String) (disk : Disk) : Prop where
  folders : disk.folders = start.folders
  workingFolder : disk.workingFolder = start.workingFolder
  descriptors : disk.descriptors = start.descriptors ++ names.map .file
  found : ∀ name, (disk.find? name).isSome = ((start.find? name).isSome || decide (name ∈ names))

theorem grown_start (start : Disk) : start.Grown [] start := by
  constructor <;> simp

theorem Grown.openEmpty (h : start.Grown names disk) (name : String) :
    start.Grown (names ++ [name]) ((disk.put name #[]).hold (.file name)) := by
  obtain ⟨files, hput⟩ : ∃ files, disk.put name #[] = { disk with files } := by
    unfold put
    split <;> exact ⟨_, rfl⟩
  constructor
  · rw [hput]
    exact h.folders
  · rw [hput]
    exact h.workingFolder
  · have hdescriptors := disk.descriptors_put name #[]
    simp [hold, hdescriptors, h.descriptors]
  · intro other
    have hfind : ((disk.put name #[]).hold (.file name)).find? other =
        if other = name then some #[] else disk.find? other :=
      disk.find?_put name #[] other
    rw [hfind]
    by_cases hsame : other = name
    · simp [hsame]
    · simp [hsame, h.found]

/-- A place that is there because of the files that were opened: one of them, or what the system
    tells of it. -/
def Foreign (names : List String) : Place → Prop
  | .file name => name ∈ names
  | .device (.account _) => True
  | _ => False

theorem Foreign.ne_folder {place : Place} (h : Foreign names place) (trail : Trail) :
    place ≠ .folder trail := by
  rintro rfl
  exact h

/-! ### Following a path -/

theorem Grown.descriptor? (h : start.Grown names disk) (trail : Trail) :
    disk.descriptor? trail = start.descriptor? trail ∨
      start.descriptor? trail = none ∧ ∃ place, disk.descriptor? trail = some place ∧
        Foreign names place := by
  unfold Disk.descriptor?
  rw [h.descriptors, List.zipIdx_append, List.findSome?_append]
  rcases hstart : start.descriptors.zipIdx.findSome? _ with _ | place
  · rw [Option.none_or]
    rcases hopened : List.findSome? _ _ with _ | place
    · exact Or.inl rfl
    · right
      obtain ⟨⟨opened, number⟩, hmem, hplace⟩ := List.exists_of_findSome?_eq_some hopened
      obtain ⟨name, hname, rfl⟩ := List.mem_map.1 (List.fst_mem_of_mem_zipIdx hmem)
      refine ⟨rfl, place, rfl, ?_⟩
      dsimp only at hplace
      split at hplace
      · cases hplace
        exact hname
      · split at hplace
        · cases hplace
          trivial
        · cases hplace
  · exact Or.inl rfl

/-- **What is at the end of a trail** is what was there before, or a place that is foreign where no
    folder was. -/
theorem Grown.lookAt (h : start.Grown names disk) (trail : Trail) :
    disk.lookAt trail = start.lookAt trail ∨
      (∀ folder, start.lookAt trail ≠ .folder folder) ∧ Foreign names (disk.lookAt trail) := by
  have hname (trail : Trail) : disk.nameOf trail = start.nameOf trail := by
    simp only [nameOf, h.workingFolder]
  have htarget : disk.target trail = start.target trail := by simp only [target, h.workingFolder]
  have hfolder (trail : Trail) : disk.hasFolder trail = start.hasFolder trail := by
    simp only [hasFolder, h.workingFolder, h.folders, hname]
  unfold Disk.lookAt
  rw [htarget]
  generalize start.target trail = trail
  dsimp only
  rw [hfolder, hname]
  by_cases hhas : start.hasFolder trail
  · simp [hhas]
  · simp only [if_neg hhas]
    rcases h.descriptor? trail with hsame | ⟨hnone, place, hplace, hforeign⟩
    · rw [hsame]
      rcases start.descriptor? trail with _ | place
      · rcases devices.lookup trail.path with _ | device
        · -- the file of that name is there before as well, or is one of those that were opened
          rw [h.found]
          by_cases hthere :
            ((start.find? (start.nameOf trail)).isSome || systemFiles.contains trail.path) = true
          · have hthere' :
                ((start.find? (start.nameOf trail)).isSome || decide (start.nameOf trail ∈ names) ||
                systemFiles.contains trail.path) = true := by
              rw [Bool.or_right_comm, hthere, Bool.true_or]
            exact Or.inl (by rw [hthere, hthere'])
          · by_cases hmem : start.nameOf trail ∈ names
            · right
              rw [if_neg hthere, if_pos (by simp [hmem])]
              exact ⟨fun folder => Place.noConfusion, hmem⟩
            · left
              simp [hmem]
        · exact Or.inl rfl
      · exact Or.inl rfl
    · -- a number that was opened since shows what is foreign, where there was no folder
      right
      rw [hplace, hnone]
      refine ⟨fun folder => ?_, hforeign⟩
      rcases devices.lookup trail.path with _ | device
      · dsimp only
        split <;> exact Place.noConfusion
      · exact Place.noConfusion

theorem follow_cons_of_ne_folder {place : Place} (h : ∀ trail, place ≠ .folder trail) (disk : Disk)
    (first : String)
    (rest : List String) : ∃ fault, disk.follow place (first :: rest) = .error fault := by
  cases place with
  | folder trail => exact absurd rfl (h trail)
  | file name => exact ⟨_, rfl⟩
  | device device => exact ⟨_, rfl⟩
  | missing trail => exact ⟨_, rfl⟩

/-- Two ways of finding a place come to the same, or both come to nothing, or the one comes to a
    place that is foreign. -/
def Alike (names : List String) (found found' : Except Fault Place) : Prop :=
  found = found' ∨ (∃ fault fault', found = .error fault ∧ found' = .error fault') ∨
    ∃ place, found = .ok place ∧ Foreign names place

theorem Grown.follow (h : start.Grown names disk) (place : Place) (path : List String) :
    Alike names (disk.follow place path) (start.follow place path) := by
  induction path generalizing place with
  | nil => exact Or.inl rfl
  | cons first rest ih =>
    cases place with
    | folder trail =>
      rw [Disk.follow, Disk.follow]
      split
      · exact Or.inl rfl
      · rcases h.lookAt (trail.step first) with hsame | ⟨hne, hforeign⟩
        · rw [hsame]
          exact ih _
        · cases rest with
          | nil => exact Or.inr (Or.inr ⟨_, rfl, hforeign⟩)
          | cons second rest =>
            obtain ⟨fault, hfollow⟩ := follow_cons_of_ne_folder hforeign.ne_folder disk second rest
            obtain ⟨fault', hfollow'⟩ := follow_cons_of_ne_folder hne start second rest
            exact Or.inr (Or.inl ⟨fault, fault', hfollow, hfollow'⟩)
    | file name => exact Or.inl rfl
    | device device => exact Or.inl rfl
    | missing trail => exact Or.inl rfl

theorem Grown.locate (h : start.Grown names disk) (path : String) :
    Alike names (disk.locate path) (start.locate path) := by
  unfold Disk.locate walk
  split
  · exact Or.inl rfl
  · split
    · exact Or.inl rfl
    · split
      · exact Or.inl rfl
      · rw [h.workingFolder]
        exact h.follow _ _

/-! ### Opening -/

theorem Grown.createAt (h : start.Grown names disk) (place : Place) :
    (∃ fault, disk.createAt place = .error fault ∧ start.createAt place = .error fault) ∨
      ∃ target after after', disk.createAt place = .ok (target, after) ∧
        start.createAt place = .ok (target, after') := by
  have hname (trail : Trail) : disk.nameOf trail = start.nameOf trail := by
    simp only [nameOf, h.workingFolder]
  cases place with
  | folder trail => exact Or.inl ⟨_, rfl, rfl⟩
  | file name => exact Or.inr ⟨_, _, _, rfl, rfl⟩
  | device device =>
    cases device <;> first | exact Or.inl ⟨_, rfl, rfl⟩ | exact Or.inr ⟨_, _, _, rfl, rfl⟩
  | missing trail =>
    simp only [Disk.createAt, hname]
    split
    · exact Or.inl ⟨_, rfl, rfl⟩
    · exact Or.inr ⟨_, _, _, rfl, rfl⟩

theorem Foreign.createAt {place : Place} (h : Foreign names place) (disk : Disk) :
    ∃ target after, disk.createAt place = .ok (target, after) ∧ ∀ name, target = .file name →
      name ∈ names := by
  cases place with
  | folder trail => exact h.elim
  | missing trail => exact h.elim
  | file name => exact ⟨.file name, _, rfl, by rintro _ ⟨⟩; exact h⟩
  | device device =>
    cases device with
    | account refusal => exact ⟨_, _, rfl, nofun⟩
    | _ => exact h.elim

/-- A path is opened alike on both disks, or as a file that was opened before, or as a device. -/
theorem Grown.create (h : start.Grown names disk) (path : String) :
    (∃ fault fault', disk.create path = .error fault ∧ start.create path = .error fault') ∨
      (∃ target after after', disk.create path = .ok (target, after) ∧
        start.create path = .ok (target, after')) ∨
      ∃ target after, disk.create path = .ok (target, after) ∧ ∀ name, target = .file name →
        name ∈ names := by
  unfold Disk.create
  split
  · left
    rcases disk.walk path _ with fault | place <;> rcases start.walk path _ with fault' | place' <;>
      exact ⟨_, _, rfl, rfl⟩
  · rcases h.locate path with hsame | ⟨fault, fault', hfault, hfault'⟩ | ⟨place, hplace, hforeign⟩
    · rw [hsame]
      rcases start.locate path with fault | place
      · exact Or.inl ⟨_, _, rfl, rfl⟩
      · rcases h.createAt place with ⟨fault, hfault, hfault'⟩ | hopened
        · exact Or.inl ⟨fault, fault, hfault, hfault'⟩
        · exact Or.inr (Or.inl hopened)
    · rw [hfault, hfault']
      exact Or.inl ⟨_, _, rfl, rfl⟩
    · rw [hplace]
      exact Or.inr (Or.inr (hforeign.createAt disk))

/-- **A path that is opened as a file of its own is opened as that file also when nothing was opened
    before.** -/
theorem Grown.create_file (h : start.Grown names disk)
    (hcreate : disk.create path = .ok (.file name, after)) (hnew : name ∉ names) :
    start.create path = .ok (.file name, (start.put name #[]).hold (.file name)) := by
  rcases h.create path with ⟨_, _, herror, _⟩ | ⟨target, _, after', hopened, hstart⟩ |
    ⟨target, _, hopened, hforeign⟩
  · rw [hcreate] at herror
    cases herror
  · rw [hcreate] at hopened
    cases hopened
    exact ((SameShape.refl start).create hstart).1
  · rw [hcreate] at hopened
    cases hopened
    exact absurd (hforeign name rfl) hnew

/-- **A path that cannot be opened cannot be opened either when nothing was opened before.** -/
theorem Grown.create_error {fault : Fault} (h : start.Grown names disk)
    (hcreate : disk.create path = .error fault) :
    ∃ fault', start.create path = .error fault' := by
  rcases h.create path with ⟨_, fault', _, hstart⟩ | ⟨_, _, _, hopened, _⟩ | ⟨_, _, hopened, _⟩
  · exact ⟨fault', hstart⟩
  · rw [hcreate] at hopened
    cases hopened
  · rw [hcreate] at hopened
    cases hopened

end StreamRelay.Disk
