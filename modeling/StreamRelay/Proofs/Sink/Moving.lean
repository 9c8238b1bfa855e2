/-
  StreamRelay/Proofs/Sink/Moving.lean
  ===================================
  **How an open file moves on.**

  An operation on a file that is open stores some bytes at the offset of its spool and holds
  others back. Which ones is decided by the spool, the answers laid down for it and the block, and
  not by the disk: one `Move` stands for the operation on every disk. Whatever the answers, what is
  stored and held after a move is what was held before and part of the block behind it, and all of
  it if the move succeeds (`Move.Fits`).

  Main statements: flushing, writing and closing are such moves (`Spool.exists_flush_move`,
  `Spool.exists_write_move`, `FileSink.exists_writeOpen_move`, `FileSink.exists_close_move`).
-/
import StreamRelay.Proofs.Disk.Frame
import StreamRelay.Proofs.Sink.Passing
import StreamRelay.Proofs.Sink.Reliable

namespace StreamRelay

open Disk

variable {name : String} {given more bytes : Bytes} {s : Spool} {ε ε' : Type}

/-! ### Moves -/

/-- The bytes that an operation stores, those it leaves held back, the answers left, and the
    outcome. -/
structure Move (ε : Type) where
  result : Except ε Unit
  answers : List WriteStep
  stored : Bytes
  held : Bytes

namespace Move

variable {m : Move ε} {m' : Move ε'}

def spool (m : Move ε) (s : Spool) : Spool :=
  ⟨s.target, m.answers, s.offset + m.stored.length, m.held⟩

def disk (m : Move ε) (name : String) (s : Spool) (disk : Disk) : Disk :=
  disk.patch name s.offset m.stored

def mapError (f : ε → ε') (m : Move ε) : Move ε' :=
  ⟨m.result.mapError f, m.answers, m.stored, m.held⟩

def next (m : Move ε) (m' : Move ε') : Move ε' :=
  ⟨m'.result, m'.answers, m.stored ++ m'.stored, m'.held⟩

/-- **What a move with the block `given` does**: nothing that was held is lost, nothing is stored or
    held but that and the block in their order, and all of it if the move succeeds. It does if every
    answer gets on. -/
structure Fits (m : Move ε) (s : Spool) (given : Bytes) : Prop where
  front : s.held <+: m.stored ++ m.held
  part : m.stored ++ m.held <+: s.held ++ given
  all : m.result = .ok () → m.stored ++ m.held = s.held ++ given
  getsOn : (∀ answer ∈ s.answers, answer.getsOn) →
    m.result = .ok () ∧ ∀ answer ∈ m.answers, answer.getsOn

theorem spool_next (m : Move ε) (m' : Move ε') (s : Spool) :
    (m.next m').spool s = m'.spool (m.spool s) := by
  simp only [spool, next, List.length_append, Nat.add_assoc]

theorem disk_next (m : Move ε) (m' : Move ε') (name : String) (s : Spool) (disk : Disk) :
    (m.next m').disk name s disk = m'.disk name (m.spool s) (m.disk name s disk) :=
  (patch_patch disk name s.offset m.stored m'.stored).symm

theorem Fits.next (h : m.Fits s given) (h' : m'.Fits (m.spool s) more) (hok : m.result = .ok ()) :
    (m.next m').Fits s (given ++ more) := by
  have hall : m.stored ++ (m.held ++ more) = s.held ++ (given ++ more) := by
    rw [← List.append_assoc, h.all hok, List.append_assoc]
  have hsplit : (m.next m').stored ++ (m.next m').held = m.stored ++ (m'.stored ++ m'.held) :=
    List.append_assoc _ _ _
  constructor
  · rw [hsplit]
    exact h.front.trans ((List.prefix_append_right_inj _).2 h'.front)
  · rw [hsplit, ← hall]
    exact (List.prefix_append_right_inj _).2 h'.part
  · intro hresult
    rw [hsplit, ← hall]
    exact congrArg (m.stored ++ ·) (h'.all hresult)
  · intro hanswers
    exact h'.getsOn (h.getsOn hanswers).2

theorem mapError_ok {f : ε → ε'} : (m.mapError f).result = .ok () ↔ m.result = .ok () := by
  rw [mapError]
  cases m.result with
  | ok => exact ⟨fun _ => rfl, fun _ => rfl⟩
  | error e => exact ⟨nofun, nofun⟩

theorem Fits.mapError (h : m.Fits s given) (f : ε → ε') : (m.mapError f).Fits s given :=
  ⟨h.front, h.part, fun hok => h.all (mapError_ok.1 hok), fun hanswers =>
    (h.getsOn hanswers).imp mapError_ok.2 id⟩

end Move

/-! ### Spools -/

/-- The outcome of a move of a spool in a regular file. -/
def Move.outcome (m : Move Fault) (name : String) (s : Spool) (disk : Disk) : Spool.Outcome :=
  ⟨m.result, m.spool s, m.disk name s disk, []⟩

namespace Spool

def storing (s : Spool) (refusal : Fault) (bytes : Bytes) : Move Fault :=
  let o := offer refusal bytes s.answers
  ⟨o.result, o.answers, o.accepted, s.held⟩

theorem store_eq (h : s.target = .file name) (refusal : Fault) (bytes : Bytes) (disk : Disk) :
    s.store disk refusal bytes = (s.storing refusal bytes).outcome name s disk := by
  unfold store
  simp only [h, write_file]
  simp [storing, Move.outcome, Move.spool, Move.disk, Target.events, h]

/-- **Flushing is a move**, after which nothing is held if it succeeds. -/
theorem exists_flush_move (h : s.target = .file name) :
    ∃ m : Move Fault, m.Fits s [] ∧ (m.result = .ok () → m.held = []) ∧
      ∀ disk, s.flush disk = m.outcome name s disk := by
  let o := offer .nothingStored s.held s.answers
  obtain ⟨hfront, hall⟩ := accepted_offer .nothingStored s.held s.answers
  have hheld : o.accepted ++ s.held.drop o.accepted.length = s.held :=
    List.prefix_iff_eq_append.1 hfront
  refine ⟨⟨o.result, o.answers, o.accepted, s.held.drop o.accepted.length⟩, ⟨?_, ?_, ?_, ?_⟩,
    ?_, ?_⟩
  · simp only [hheld, List.prefix_rfl]
  · simp only [hheld, List.append_nil, List.prefix_rfl]
  · intro _
    rw [hheld, List.append_nil]
  · intro hanswers
    obtain ⟨hok, hsuffix⟩ := offer_getsOn .nothingStored s.held hanswers
    exact ⟨hok, fun answer hmem => hanswers answer (hsuffix.subset hmem)⟩
  · intro hok
    rw [show o.accepted = s.held from hall hok, List.drop_length]
  · intro disk
    unfold flush
    rw [store_eq h]
    simp [storing, Move.outcome, Move.spool, Move.disk, o]

theorem storing_fits (hnone : s.held = []) (refusal : Fault) (bytes : Bytes) :
    (s.storing refusal bytes).Fits s bytes := by
  obtain ⟨hfront, hall⟩ := accepted_offer refusal bytes s.answers
  unfold storing
  constructor <;> simp only [hnone, List.append_nil, List.nil_append]
  · exact List.nil_prefix
  · exact hfront
  · exact hall
  · intro hanswers
    obtain ⟨hok, hsuffix⟩ := offer_getsOn refusal bytes hanswers
    exact ⟨hok, fun answer hmem => hanswers answer (hsuffix.subset hmem)⟩

/-- **Placing a block is a move**, if nothing is held that it would overtake. A large block leaves
    nothing held, and a small one stores nothing. -/
theorem exists_place_move (h : s.target = .file name) (bytes : Bytes)
    (hroom : s.held = [] ∨ bytes.length < spoolSize) :
    ∃ m : Move Fault, m.Fits s bytes ∧ (spoolSize ≤ bytes.length → m.held = []) ∧
      (bytes.length < spoolSize → m.result = .ok () ∧ m.stored = []) ∧
      ∀ disk, s.place disk bytes = m.outcome name s disk := by
  by_cases hlarge : spoolSize ≤ bytes.length
  · -- a large block goes past the buffer
    have hnone := hroom.resolve_right (Nat.not_lt.2 hlarge)
    refine ⟨s.storing .nothingAccepted bytes, storing_fits hnone _ _, fun _ => hnone,
      fun hsmall => absurd hlarge (Nat.not_le.2 hsmall), fun disk => ?_⟩
    rw [place, if_pos hlarge, store_eq h]
  · refine ⟨⟨.ok (), s.answers, [], s.held ++ bytes⟩, ⟨?_, ?_, fun _ => rfl, fun hanswers =>
      ⟨rfl, hanswers⟩⟩, fun h => absurd h hlarge, fun _ => ⟨rfl, rfl⟩, fun disk => ?_⟩
    · exact List.prefix_append _ _
    · exact List.prefix_rfl
    · rw [place, if_neg hlarge]
      rfl

/-- Before the first block there is nothing to get out of its way. -/
theorem write_eq_place (hnone : s.held = []) (disk : Disk) (bytes : Bytes)
    (h : s.target = .file name) : s.write disk bytes = s.place disk bytes := by
  have hstart : s.flush disk = ⟨.ok (), s, disk, []⟩ := by
    have hoffer : offer .nothingStored [] s.answers = ⟨[], s.answers, .ok ()⟩ := by
      unfold offer
      rfl
    obtain ⟨target, answers, offset, held⟩ := s
    dsimp only at hnone h hoffer
    subst hnone h
    rw [flush, store_eq rfl]
    simp [storing, hoffer, Move.outcome, Move.spool, Move.disk, Offer.accepted]
  unfold write
  rw [hstart]
  split <;> rfl

/-- **Writing a block is a move.** With nothing held before it, a small block stores nothing. -/
theorem exists_write_move (h : s.target = .file name) (bytes : Bytes) :
    ∃ m : Move Fault, m.Fits s bytes ∧
      (spoolSize ≤ bytes.length → m.result = .ok () → m.held = []) ∧
      (s.held = [] → bytes.length < spoolSize → m.result = .ok () ∧ m.stored = []) ∧
      ∀ disk, s.write disk bytes = m.outcome name s disk := by
  by_cases hnone : s.held = []
  · -- a flush would move nothing
    obtain ⟨m, hfits, hlarge, hsmall, hplace⟩ := exists_place_move h bytes (Or.inl hnone)
    exact ⟨m, hfits, fun hle _ => hlarge hle, fun _ => hsmall, fun disk => by
      rw [write_eq_place hnone disk bytes h, hplace]⟩
  by_cases hfits : spoolSize - s.held.length < bytes.length
  · -- what is held goes first, and the block follows if that succeeds
    obtain ⟨m, hflush, hempty, hoperation⟩ := exists_flush_move h
    rcases hresult : m.result with fault | _
    · refine ⟨m, ⟨hflush.front, ?_, ?_, hflush.getsOn⟩, ?_, fun h => absurd h hnone, fun disk => ?_⟩
      · have hpart := hflush.part
        rw [List.append_nil] at hpart
        exact hpart.trans (List.prefix_append _ _)
      · rw [hresult]
        exact nofun
      · rw [hresult]
        exact fun _ => nofun
      · rw [write, if_pos hfits, hoperation]
        simp [Move.outcome, hresult]
    · obtain ⟨m', hfits', hlarge, _, hplace⟩ :=
        exists_place_move (s := m.spool s) h bytes (Or.inl (hempty hresult))
      refine ⟨m.next m', hflush.next hfits' hresult, fun hle _ => hlarge hle,
        fun h => absurd h hnone, fun disk => ?_⟩
      rw [write, if_pos hfits, hoperation, Move.outcome, Move.outcome, Move.spool_next,
        Move.disk_next]
      simp only [hresult, hplace, Move.outcome, Move.next, List.nil_append]
  · -- a block as large as the buffer only fits next to nothing
    have hsmall : bytes.length < spoolSize := by
      have hpos := List.length_pos_iff.2 hnone
      have : 0 < spoolSize := by decide
      omega
    obtain ⟨m, hmove, hlarge, hsmall', hplace⟩ := exists_place_move h bytes (Or.inr hsmall)
    exact ⟨m, hmove, fun hle _ => hlarge hle, fun h => absurd h hnone, fun disk => by
      rw [write, if_neg hfits, hplace]⟩

end Spool

/-! ### Files -/

namespace FileSink

variable {f : FileSink}

def moved (f : FileSink) (m : Move SinkError) (name : String) (s : Spool) (disk : Disk) :
    Effect SinkError (FileSink × Disk) :=
  ⟨({ f with state := .opened (m.spool s) }, m.disk name s disk), [], m.result⟩

/-- **Writing to an open file is a move.** A block that is flushed or large leaves nothing held if
    all goes well; another one is not stored if it is the first. -/
theorem exists_writeOpen_move (hstate : f.state = .opened s) (h : s.target = .file name)
    (bytes : Bytes) (flush : Bool) :
    ∃ m : Move SinkError, m.Fits s bytes ∧
      (flush ∨ spoolSize ≤ bytes.length → m.result = .ok () → m.held = []) ∧
      (s.held = [] → ¬ (flush ∨ spoolSize ≤ bytes.length) → m.result = .ok () ∧ m.stored = []) ∧
      ∀ disk, f.writeOpen disk bytes flush = f.moved m name s disk := by
  obtain ⟨m, hfits, hlarge, hsmall, hwrite⟩ := Spool.exists_write_move h bytes
  have hholds (hnone : s.held = []) (hhold : ¬ (flush ∨ spoolSize ≤ bytes.length)) :
      (m.mapError (SinkError.write f.path)).result = .ok () ∧ m.stored = [] := by
    rw [not_or, Nat.not_le] at hhold
    rw [Move.mapError_ok]
    exact hsmall hnone hhold.2
  rcases hresult : m.result with fault | _
  · refine ⟨m.mapError (.write f.path), hfits.mapError _, fun _ hok => ?_, hholds, fun disk => ?_⟩
    · rw [Move.mapError_ok, hresult] at hok
      cases hok
    · simp only [writeOpen, hstate, hwrite, Move.outcome, hresult, moved, Move.mapError]
      rfl
  cases flush with
  | false =>
    refine ⟨m.mapError (.write f.path), hfits.mapError _, fun hnow hok => ?_, hholds,
      fun disk => ?_⟩
    · exact hlarge (hnow.resolve_left Bool.false_ne_true) hresult
    · simp only [writeOpen, hstate, hwrite, Move.outcome, hresult, moved, Move.mapError]
      rfl
  | true =>
    -- two moves in a row: the block, and a flush of what it left held
    obtain ⟨m', hfits', hempty, hflush⟩ := Spool.exists_flush_move (s := m.spool s) h
    refine ⟨m.next (m'.mapError (.flush f.path)), ?_, fun _ hok => ?_, fun _ hhold => ?_,
      fun disk => ?_⟩
    · have hboth := hfits.next (hfits'.mapError (SinkError.flush f.path)) hresult
      rwa [List.append_nil] at hboth
    · exact hempty (Move.mapError_ok.1 hok)
    · exact absurd (Or.inl rfl) hhold
    · rw [moved, Move.spool_next, Move.disk_next]
      simp only [writeOpen, hstate, hwrite, Move.outcome, hresult, if_true, hflush, Move.next,
        Move.mapError, List.append_nil]
      rfl

/-- Writing to a file that was tried opens nothing. -/
theorem write_eq (h : f.state ≠ .unopened) (disk : Disk) (bytes : Bytes) (flush : Bool) :
    f.write disk bytes flush = f.writeOpen disk bytes flush := by
  have hopen : f.openIfNeeded disk = .quiet (f, disk) := by
    unfold openIfNeeded
    split
    · next hstate => exact absurd hstate h
    · rfl
  unfold write
  rw [hopen]
  simp [Effect.quiet]

theorem write_failed {path : String} {answers : List WriteStep} {disk : Disk} {fault : Fault}
    (hcreate : disk.create path = .error fault) (bytes : Bytes) (flush : Bool) :
    (ofPath path answers).write disk bytes flush =
      ⟨(⟨path, answers, .failed⟩, disk), [.warned (cannotOpen path fault)], .ok ()⟩ := by
  simp [write, openIfNeeded, ofPath, hcreate, writeOpen, Effect.quiet]

/-- The first block opens the file and is written to it. -/
theorem write_opened {path : String} {answers : List WriteStep} {disk after : Disk}
    {target : Target} (hcreate : disk.create path = .ok (target, after)) (bytes : Bytes)
    (flush : Bool) :
    (ofPath path answers).write disk bytes flush =
      let e := writeOpen ⟨path, answers, .opened (.start target answers)⟩ after bytes flush
      { e with events := .opened path :: e.events } := by
  simp [write, openIfNeeded, ofPath, hcreate]

def shut (f : FileSink) (m : Move SinkError) (s : Spool) : FileSink :=
  match m.result with
  | .ok () => { f with state := .closed }
  | .error _ => { f with state := .opened (m.spool s) }

/-- **Closing an open file is a move.** -/
theorem exists_close_move (hstate : f.state = .opened s) (h : s.target = .file name) :
    ∃ m : Move SinkError, m.Fits s [] ∧ (m.result = .ok () → m.held = []) ∧
      ∀ disk, f.close disk = ⟨(f.shut m s, m.disk name s disk), [], m.result⟩ := by
  obtain ⟨m, hfits, hempty, hflush⟩ := Spool.exists_flush_move h
  refine ⟨m.mapError (.flush f.path), hfits.mapError _,
    fun hok => hempty (Move.mapError_ok.1 hok), fun disk => ?_⟩
  rcases hresult : m.result with fault | _
  · simp only [close, shut, hstate, hflush, Move.outcome, hresult, Move.mapError]
    rfl
  · simp only [close, shut, hstate, hflush, Move.outcome, hresult, Move.mapError]
    rfl

/-- **So is giving it up**: what is held is stored as far as that can be done. -/
theorem exists_release_move (hstate : f.state = .opened s) (h : s.target = .file name) :
    ∃ m : Move Fault, m.Fits s [] ∧ (m.result = .ok () → m.held = []) ∧
      ∀ disk, f.release disk = (m.disk name s disk, []) := by
  obtain ⟨m, hfits, hempty, hflush⟩ := Spool.exists_flush_move h
  exact ⟨m, hfits, hempty, fun disk => by simp [release, hstate, hflush, Move.outcome]⟩

end FileSink

end StreamRelay
