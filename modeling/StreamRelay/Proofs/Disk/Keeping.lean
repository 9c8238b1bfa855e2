/-
  StreamRelay/Proofs/Disk/Keeping.lean
  ====================================
  **Files that were opened and hold part of some bytes.**

  Whether a file is open on a disk is read off what is open there, and so is whether it was opened
  since an earlier state of the disk (`Opened`). Bytes of a whole that are written in their place,
  not past the end of what is there, leave part of the whole (`Keeps.patch`), wherever other writers
  stand in the same file.
-/
import Mathlib.Data.List.Infix
import StreamRelay.Proofs.Disk.Frame

namespace StreamRelay.Disk

variable {start disk disk' after : Disk} {name other path : String} {whole chunk bytes : Bytes}
  {offset : Nat}

/-! ### Files that were opened -/

/-- A file is open on a disk that was not open at the start. -/
def Opened (start disk : Disk) (name : String) : Prop :=
  ∃ places, disk.descriptors = start.descriptors ++ places ∧ Place.file name ∈ places

/-- **Every file that was opened holds part of `whole`**, and no other file has changed. -/
structure Keeps (start : Disk) (whole : Bytes) (disk : Disk) : Prop where
  descriptors : start.descriptors <+: disk.descriptors
  contents : ∀ name, start.Opened disk name → disk.contents name <+: whole
  others : ∀ name, ¬ start.Opened disk name → disk.find? name = start.find? name

/-- Nothing that was opened was closed or got shorter. -/
structure Later (start disk disk' : Disk) : Prop where
  descriptors : disk.descriptors <+: disk'.descriptors
  longer : ∀ name, start.Opened disk name →
    (disk.contents name).length ≤ (disk'.contents name).length

theorem Opened.mono (h : start.Opened disk name) (hlater : disk.descriptors <+: disk'.descriptors) :
    start.Opened disk' name := by
  obtain ⟨places, hdescriptors, hmem⟩ := h
  obtain ⟨more, hmore⟩ := hlater
  exact ⟨places ++ more, by rw [← hmore, hdescriptors, List.append_assoc],
    List.mem_append_left more hmem⟩

theorem not_opened_start (start : Disk) (name : String) : ¬ start.Opened start name := by
  rintro ⟨places, hdescriptors, hmem⟩
  rw [List.append_right_eq_self.1 hdescriptors.symm] at hmem
  cases hmem

theorem keeps_start (start : Disk) (whole : Bytes) : start.Keeps whole start :=
  ⟨List.prefix_rfl, fun name h => absurd h (start.not_opened_start name), fun _ _ => rfl⟩

theorem Keeps.mono {more : Bytes} (h : start.Keeps whole disk) (hmore : whole <+: more) :
    start.Keeps more disk :=
  ⟨h.descriptors, fun name hopened => (h.contents name hopened).trans hmore, h.others⟩

theorem Later.refl (start disk : Disk) : start.Later disk disk :=
  ⟨List.prefix_rfl, fun _ _ => Nat.le_refl _⟩

theorem Later.trans (h : start.Later disk disk') (h' : start.Later disk' after) :
    start.Later disk after :=
  ⟨h.descriptors.trans h'.descriptors, fun name hopened =>
    Nat.le_trans (h.longer name hopened) (h'.longer name (hopened.mono h.descriptors))⟩

/-! ### Writing where part of the whole stands already -/

/-- **Bytes of the whole that are written in their place leave part of the whole.** -/
theorem overlay_prefix {contents : Bytes} (hcontents : contents <+: whole)
    (hoffset : offset ≤ contents.length)
    (hchunk : chunk <+: whole.drop offset) : overlay contents offset chunk <+: whole := by
  obtain ⟨rest, rfl⟩ := hcontents
  rw [List.drop_append_of_le_length hoffset] at hchunk
  rw [overlay, Nat.sub_eq_zero_of_le hoffset, List.replicate_zero, List.append_nil]
  rcases Nat.le_total contents.length (offset + chunk.length) with hpast | hwithin
  · have hsplit : contents ++ rest = contents.take offset ++ (contents.drop offset ++ rest) := by
      rw [← List.append_assoc, List.take_append_drop]
    rw [List.drop_eq_nil_of_le hpast, List.append_nil, hsplit]
    exact (List.prefix_append_right_inj _).2 hchunk
  · -- the bytes stood there before, and nothing changes
    have hsame : chunk <+: contents.drop offset := by
      refine List.prefix_of_prefix_length_le hchunk (List.prefix_append _ _) ?_
      rw [List.length_drop]
      omega
    obtain ⟨tail, htail⟩ := hsame
    have hdrop : contents.drop (offset + chunk.length) = tail := by
      rw [← List.drop_drop, ← htail, List.drop_left]
    rw [hdrop, List.append_assoc, htail, List.take_append_drop]
    exact List.prefix_append _ _

theorem opened_patch (offset : Nat) (bytes : Bytes) (other : String) :
    start.Opened (disk.patch name offset bytes) other ↔ start.Opened disk other := by
  unfold Opened
  rw [descriptors_patch]

theorem length_patch (hoffset : offset ≤ (disk.contents name).length) (bytes : Bytes) :
    offset + bytes.length ≤ ((disk.patch name offset bytes).contents name).length ∧
      (disk.contents name).length ≤ ((disk.patch name offset bytes).contents name).length := by
  rw [contents_patch hoffset, length_overlay]
  exact ⟨Nat.le_max_right _ _, Nat.le_max_left _ _⟩

theorem contents_patch_of_ne {other : String} (hne : other ≠ name) (offset : Nat)
    (bytes : Bytes) : (disk.patch name offset bytes).contents other = disk.contents other := by
  rw [contents, contents, find?_patch_of_ne hne]

/-- **Bytes of the whole that are written in their place** leave part of the whole, and nothing
    shorter than it was. -/
theorem Keeps.patch (h : start.Keeps whole disk) (hopened : start.Opened disk name)
    (hoffset : chunk ≠ [] → offset ≤ (disk.contents name).length)
    (hchunk : chunk <+: whole.drop offset) :
    start.Keeps whole (disk.patch name offset chunk) ∧
      start.Later disk (disk.patch name offset chunk) := by
  by_cases hempty : chunk = []
  · rw [hempty, patch_nil]
    exact ⟨h, .refl start disk⟩
  have hplace := hoffset hempty
  refine ⟨⟨?_, ?_, ?_⟩, ?_, ?_⟩
  · rw [descriptors_patch]
    exact h.descriptors
  · intro other hother
    rw [opened_patch] at hother
    by_cases heq : other = name
    · rw [heq, contents_patch hplace]
      exact overlay_prefix (h.contents name hopened) hplace hchunk
    · rw [contents_patch_of_ne heq]
      exact h.contents other hother
  · intro other hother
    rw [opened_patch] at hother
    have hne : other ≠ name := fun heq => hother (heq ▸ hopened)
    rw [find?_patch_of_ne hne]
    exact h.others other hother
  · rw [descriptors_patch]
  · intro other _
    by_cases heq : other = name
    · rw [heq]
      exact (length_patch hplace chunk).2
    · rw [contents_patch_of_ne heq]

/-- A device that takes what is written does not change the disk. -/
theorem write_device {device : Device} (h : disk.write (.device device) offset bytes = .ok disk') :
    disk' = disk := by
  unfold Disk.write at h
  split at h
  · cases h
    rfl
  · rcases device with _ | _ | _ | stream | _ | _ | refusal <;> cases h <;> rfl

/-! ### Opening -/

/-- What is opened for writing is a file that is emptied, or a device. -/
theorem createAt_ok {place : Place} {target : Target}
    (h : disk.createAt place = .ok (target, after)) :
    (∃ name, target = .file name ∧ after = (disk.put name #[]).hold (.file name)) ∨
      ∃ device, target = .device device ∧ after = disk.hold (.device device) := by
  unfold createAt at h
  split at h
  · cases h
  · cases h
    exact Or.inl ⟨_, rfl, rfl⟩
  · split at h
    · cases h
    · cases h
      exact Or.inl ⟨_, rfl, rfl⟩
  · cases h
  · cases h
  · cases h
    exact Or.inr ⟨_, rfl, rfl⟩

theorem create_ok {target : Target} (h : disk.create path = .ok (target, after)) :
    (∃ name, target = .file name ∧ after = (disk.put name #[]).hold (.file name)) ∨
      ∃ device, target = .device device ∧ after = disk.hold (.device device) := by
  unfold create at h
  split at h
  · split at h <;> cases h
  · split at h
    · cases h
    · exact createAt_ok h

theorem opened_hold (h : start.descriptors <+: disk.descriptors) (place : Place) :
    start.Opened (disk.hold place) name ↔ start.Opened disk name ∨ place = .file name := by
  obtain ⟨places, hplaces⟩ := h
  constructor
  · rintro ⟨places', hplaces', hmem⟩
    have hsame : places' = places ++ [place] := by
      have : start.descriptors ++ places ++ [place] = start.descriptors ++ places' := by
        rw [hplaces]
        exact hplaces'
      rw [List.append_assoc] at this
      exact (List.append_cancel_left this).symm
    rw [hsame, List.mem_append, List.mem_singleton] at hmem
    exact hmem.imp (fun hmem => ⟨places, hplaces.symm, hmem⟩) Eq.symm
  · rintro (hopened | rfl)
    · exact hopened.mono (List.prefix_append _ _)
    · refine ⟨places ++ [.file name], ?_, List.mem_append_right _ List.mem_cons_self⟩
      rw [← List.append_assoc, hplaces]
      rfl

end StreamRelay.Disk
