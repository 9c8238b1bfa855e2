/-
  StreamRelay/Proofs/Disk/Frame.lean
  ==================================
  **What a write leaves alone on the disk.**

  A write to a file changes the contents of that file only, and if the file is there it changes no
  more than contents: the disk keeps its shape. Where a path leads to depends on the shape alone, so
  what can be opened does not depend on what was written before (`create_congr`).
-/
import StreamRelay.Disk

namespace StreamRelay.Disk

variable {disk disk' after : Disk} {name other : String}

/-! ### Contents under a name -/

theorem lookup_map_put (files : List (String × Array UInt8)) (name other : String)
    (bytes : Array UInt8) :
    (files.map fun file => if file.1 = name then (name, bytes) else file).lookup other =
      if other = name then (files.lookup name).map fun _ => bytes else files.lookup other := by
  induction files with
  | nil => simp
  | cons file files ih =>
    obtain ⟨key, contents⟩ := file
    by_cases hkey : key = name
    · subst hkey
      by_cases hother : other = key
      · subst hother
        simp
      · have hne : (other == key) = false := by simpa using hother
        simp only [List.map_cons, if_true, List.lookup_cons, hne, ih, if_neg hother]
    · by_cases hother : other = key
      · subst hother
        simp [hkey]
      · have hne : (other == key) = false := by simpa using hother
        have hne' : (name == key) = false := by simpa using fun h => hkey h.symm
        simp only [List.map_cons, if_neg hkey, List.lookup_cons, hne, hne', ih]

/-- **A put changes the contents under its name and no other.** -/
theorem find?_put (disk : Disk) (name : String) (bytes : Array UInt8) (other : String) :
    (disk.put name bytes).find? other = if other = name then some bytes else disk.find? other := by
  unfold put
  rcases hfind : disk.find? name with _ | contents
  · by_cases hother : other = name
    · subst hother
      have hnone : disk.files.lookup other = none := hfind
      simp [find?, List.lookup_append, hnone]
    · have hne : (other == name) = false := by simpa using hother
      simp [find?, List.lookup_append, List.lookup_cons, hne, hother]
  · have hsome : disk.files.lookup name = some contents := hfind
    simp only [find?, lookup_map_put, hsome, Option.map_some]

theorem contents_of_find? {contents : Array UInt8} (h : disk.find? name = some contents) :
    disk.contents name = contents.toList := by
  rw [Disk.contents, h]
  rfl

/-! ### Shape -/

/-- Two disks have the same files, folders and open places, with contents that may differ. -/
def SameShape (disk disk' : Disk) : Prop :=
  ∃ files, disk' = { disk with files } ∧ files.map (·.1) = disk.files.map (·.1)

theorem SameShape.refl (disk : Disk) : disk.SameShape disk := ⟨disk.files, rfl, rfl⟩

theorem SameShape.trans (h : disk.SameShape disk') (h' : disk'.SameShape after) :
    disk.SameShape after := by
  obtain ⟨files, rfl, hnames⟩ := h
  obtain ⟨files', rfl, hnames'⟩ := h'
  exact ⟨files', rfl, hnames'.trans hnames⟩

theorem isSome_lookup (files : List (String × Array UInt8)) (name : String) :
    (files.lookup name).isSome = (files.map (·.1)).contains name := by
  induction files with
  | nil => rfl
  | cons file files ih =>
    rw [List.lookup_cons, List.map_cons, List.contains_cons, ← ih]
    cases hsame : name == file.1 <;> simp

theorem SameShape.isSome_find? (h : disk.SameShape disk') (name : String) :
    (disk'.find? name).isSome = (disk.find? name).isSome := by
  obtain ⟨files, rfl, hnames⟩ := h
  rw [find?, find?, isSome_lookup, isSome_lookup, hnames]

theorem map_put_names (files : List (String × Array UInt8)) (name : String) (bytes : Array UInt8) :
    (files.map fun file => if file.1 = name then (name, bytes) else file).map (·.1) =
      files.map (·.1) := by
  rw [List.map_map]
  apply List.map_congr_left
  intro file _
  dsimp only [Function.comp]
  split
  · next hname => exact hname.symm
  · rfl

theorem sameShape_put (hsome : (disk.find? name).isSome) (bytes : Array UInt8) :
    disk.SameShape (disk.put name bytes) := by
  obtain ⟨contents, hfind⟩ := Option.isSome_iff_exists.1 hsome
  unfold put
  rw [hfind]
  exact ⟨_, rfl, map_put_names disk.files name bytes⟩

theorem SameShape.lookAt_eq (h : disk.SameShape disk') (trail : Trail) :
    disk'.lookAt trail = disk.lookAt trail := by
  have hfind := h.isSome_find?
  obtain ⟨files, rfl, _⟩ := h
  unfold lookAt
  simp only [hfind]
  rfl

theorem SameShape.follow_eq (h : disk.SameShape disk') (place : Place) (names : List String) :
    disk'.follow place names = disk.follow place names := by
  induction names generalizing place with
  | nil => rfl
  | cons name names ih =>
    cases place with
    | folder trail =>
      rw [follow, follow, h.lookAt_eq]
      split
      · rfl
      · exact ih _
    | file _ => rfl
    | device _ => rfl
    | missing _ => rfl

theorem SameShape.walk_eq (h : disk.SameShape disk') (path : String) (names : List String) :
    disk'.walk path names = disk.walk path names := by
  have hfollow := h.follow_eq
  obtain ⟨files, rfl, _⟩ := h
  unfold walk
  simp only [hfollow]

/-- A put of one name on disks of one shape leaves them so, whether the name is new or not. -/
theorem SameShape.put (h : disk.SameShape disk') (name : String) (bytes bytes' : Array UInt8) :
    (disk.put name bytes).SameShape (disk'.put name bytes') := by
  have hsome := h.isSome_find? name
  obtain ⟨files, rfl, hnames⟩ := h
  unfold Disk.put
  rcases hfind : disk.find? name with _ | contents
  · rw [hfind, Option.isSome_none, Option.isSome_eq_false_iff, Option.isNone_iff_eq_none] at hsome
    rw [hsome]
    refine ⟨_, rfl, ?_⟩
    rw [List.map_append, List.map_append, hnames]
    rfl
  · rw [hfind, Option.isSome_some] at hsome
    obtain ⟨contents', hfind'⟩ := Option.isSome_iff_exists.1 hsome
    rw [hfind']
    refine ⟨_, rfl, ?_⟩
    rw [map_put_names, map_put_names, hnames]

theorem SameShape.hold (h : disk.SameShape disk') (place : Place) :
    (disk.hold place).SameShape (disk'.hold place) := by
  obtain ⟨files, rfl, hnames⟩ := h
  exact ⟨files, rfl, hnames⟩

theorem createAt_file {place : Place} (h : disk.createAt place = .ok (.file name, after)) :
    after = (disk.put name #[]).hold (.file name) := by
  unfold createAt at h
  split at h
  · cases h
  · cases h
    rfl
  · split at h
    · cases h
    · cases h
      rfl
  · cases h
  · cases h
  · cases h

theorem SameShape.createAt (h : disk.SameShape disk') {place : Place}
    (hcreate : disk.createAt place = .ok (.file name, after)) :
    disk'.createAt place = .ok (.file name, (disk'.put name #[]).hold (.file name)) := by
  obtain ⟨files, rfl, _⟩ := h
  unfold Disk.createAt at hcreate ⊢
  split at hcreate
  · cases hcreate
  · cases hcreate
    rfl
  · next trail =>
    split at hcreate
    · cases hcreate
    · next hallowed =>
      cases hcreate
      rfl
  · cases hcreate
  · cases hcreate
  · cases hcreate

/-- **What a path can be opened as does not depend on contents.** -/
theorem SameShape.create (h : disk.SameShape disk') {path : String}
    (hcreate : disk.create path = .ok (.file name, after)) :
    disk'.create path = .ok (.file name, (disk'.put name #[]).hold (.file name)) ∧
      after = (disk.put name #[]).hold (.file name) := by
  have hwalk := h.walk_eq path
  unfold Disk.create locate at hcreate ⊢
  split at hcreate
  · split at hcreate <;> cases hcreate
  · next hasks =>
    rw [if_neg hasks]
    rw [hwalk]
    split at hcreate
    · cases hcreate
    · next place hplace =>
      exact ⟨h.createAt hcreate, createAt_file hcreate⟩

/-! ### Writes -/

/-- Contents with bytes written over them at an offset; a gap before the offset is zeros. -/
def overlay (contents : Bytes) (offset : Nat) (bytes : Bytes) : Bytes :=
  contents.take offset ++ List.replicate (offset - contents.length) 0 ++ bytes
    ++ contents.drop (offset + bytes.length)

theorem splice_toList (contents : Array UInt8) (offset : Nat) (bytes : Bytes) :
    (splice contents offset bytes).toList = overlay contents.toList offset bytes := by
  have hlength : (contents.toList.drop (offset + bytes.length)).length ≤
      contents.size - (offset + bytes.length) :=
    Nat.le_of_eq (by rw [List.length_drop, Array.length_toList])
  simp [splice, overlay, List.extract_eq_take_drop, List.take_of_length_le hlength]

theorem overlay_end (contents bytes : Bytes) :
    overlay contents contents.length bytes = contents ++ bytes := by
  simp [overlay]

theorem length_overlay (contents : Bytes) (offset : Nat) (bytes : Bytes) :
    (overlay contents offset bytes).length = max contents.length (offset + bytes.length) := by
  simp only [overlay, List.length_append, List.length_take, List.length_drop, List.length_replicate]
  omega

/-- **Bytes behind bytes just written** go on from there. -/
theorem overlay_overlay (contents : Bytes) (offset : Nat) (bytes more : Bytes) :
    overlay (overlay contents offset bytes) (offset + bytes.length) more =
      overlay contents offset (bytes ++ more) := by
  have hlength := length_overlay contents offset bytes
  have hfront : (contents.take offset ++ List.replicate (offset - contents.length) 0
      ++ bytes).length = offset + bytes.length := by
    simp only [List.length_append, List.length_take, List.length_replicate]
    omega
  have htake : (overlay contents offset bytes).take (offset + bytes.length) =
      contents.take offset ++ List.replicate (offset - contents.length) 0 ++ bytes := by
    rw [overlay, ← hfront, List.take_left]
  have hdrop : (overlay contents offset bytes).drop (offset + bytes.length + more.length) =
      contents.drop (offset + (bytes ++ more).length) := by
    rw [overlay, ← List.drop_drop, ← hfront, List.drop_left, hfront, List.drop_drop,
      List.length_append, Nat.add_assoc]
  have hgap : offset + bytes.length - (overlay contents offset bytes).length = 0 := by
    rw [hlength]
    omega
  rw [overlay, htake, hdrop, hgap, List.replicate_zero, List.append_nil]
  simp only [overlay, List.append_assoc]

theorem put_put (disk : Disk) (name : String) (bytes more : Array UInt8) :
    (disk.put name bytes).put name more = disk.put name more := by
  have hfind := find?_put disk name bytes name
  rw [if_pos rfl] at hfind
  rw [put, hfind]
  unfold put
  rcases hbefore : disk.find? name with _ | contents
  · -- the name was put behind the others, none of which has it
    have hfresh : ∀ file ∈ disk.files, file.1 ≠ name := by
      intro file hmem hname
      have hnone := isSome_lookup disk.files name
      rw [show disk.files.lookup name = none from hbefore] at hnone
      have hmem' : name ∈ disk.files.map (·.1) := hname ▸ List.mem_map_of_mem hmem
      simp [hmem'] at hnone
    have hsame : disk.files.map (fun file => if file.1 = name then (name, more) else file) =
        disk.files := by
      rw [List.map_congr_left fun file hmem => if_neg (hfresh file hmem), List.map_id']
    simp [hsame]
  · simp only [List.map_map, Disk.mk.injEq, and_true]
    apply List.map_congr_left
    intro file _
    dsimp only [Function.comp]
    split <;> simp_all

/-! ### Patches -/

/-- **The disk once bytes are written to a file**, which never fails by itself. -/
def patch (disk : Disk) (name : String) (offset : Nat) (bytes : Bytes) : Disk :=
  if bytes.isEmpty then disk
  else disk.put name (splice ((disk.find? name).getD #[]) offset bytes)

theorem write_file (disk : Disk) (name : String) (offset : Nat) (bytes : Bytes) :
    disk.write (.file name) offset bytes = .ok (disk.patch name offset bytes) := by
  unfold write patch
  split <;> rfl

@[simp] theorem patch_nil (disk : Disk) (name : String) (offset : Nat) :
    disk.patch name offset [] = disk := rfl

variable {offset : Nat}

theorem find?_patch_of_ne (hne : other ≠ name) (offset : Nat) (bytes : Bytes) :
    (disk.patch name offset bytes).find? other = disk.find? other := by
  unfold patch
  split
  · rfl
  · rw [find?_put, if_neg hne]

theorem find?_patch_congr (h : disk.find? name = disk'.find? name) (offset : Nat) (bytes : Bytes) :
    (disk.patch name offset bytes).find? name = (disk'.patch name offset bytes).find? name := by
  unfold patch
  split
  · exact h
  · rw [find?_put, find?_put, if_pos rfl, if_pos rfl, h]

theorem descriptors_put (disk : Disk) (name : String) (bytes : Array UInt8) :
    (disk.put name bytes).descriptors = disk.descriptors := by
  unfold put
  split <;> rfl

theorem descriptors_patch (disk : Disk) (name : String) (offset : Nat) (bytes : Bytes) :
    (disk.patch name offset bytes).descriptors = disk.descriptors := by
  unfold patch
  split
  · rfl
  · exact descriptors_put _ _ _

theorem contents_put (disk : Disk) (name : String) (bytes : Array UInt8) (other : String) :
    (disk.put name bytes).contents other =
      if other = name then bytes.toList else disk.contents other := by
  unfold contents
  rw [find?_put]
  split <;> rfl

theorem contents_patch (hoffset : offset ≤ (disk.contents name).length) (bytes : Bytes) :
    (disk.patch name offset bytes).contents name = overlay (disk.contents name) offset bytes := by
  unfold patch
  by_cases hempty : bytes.isEmpty
  · have hgap : offset - (disk.contents name).length = 0 := Nat.sub_eq_zero_of_le hoffset
    rw [if_pos hempty, List.isEmpty_iff.1 hempty, overlay, hgap]
    simp
  · rw [if_neg hempty, contents_put, if_pos rfl]
    exact splice_toList _ offset bytes

/-- **Two writes in a row are one.** -/
theorem patch_patch (disk : Disk) (name : String) (offset : Nat) (bytes more : Bytes) :
    (disk.patch name offset bytes).patch name (offset + bytes.length) more =
      disk.patch name offset (bytes ++ more) := by
  by_cases hbytes : bytes.isEmpty
  · rw [List.isEmpty_iff.1 hbytes, patch_nil, List.length_nil, Nat.add_zero, List.nil_append]
  by_cases hmore : more.isEmpty
  · rw [List.isEmpty_iff.1 hmore, patch_nil, List.append_nil]
  have hboth : (bytes ++ more).isEmpty = false := by
    simp_all
  unfold patch
  simp only [hbytes, hmore, hboth, Bool.false_eq_true, if_false, find?_put, if_true,
    Option.getD_some, put_put]
  congr 1
  apply Array.ext'
  simp only [splice_toList, overlay_overlay]

theorem isSome_find?_patch (hsome : (disk.find? name).isSome) (offset : Nat) (bytes : Bytes) :
    ((disk.patch name offset bytes).find? name).isSome := by
  unfold patch
  split
  · exact hsome
  · rw [find?_put, if_pos rfl]
    rfl

theorem sameShape_patch (hsome : (disk.find? name).isSome) (offset : Nat) (bytes : Bytes) :
    disk.SameShape (disk.patch name offset bytes) := by
  unfold patch
  split
  · exact .refl disk
  · exact sameShape_put hsome _

end StreamRelay.Disk
