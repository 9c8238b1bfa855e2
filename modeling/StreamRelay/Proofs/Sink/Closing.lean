/-
  StreamRelay/Proofs/Sink/Closing.lean
  ====================================
  **What it comes to when sinks are closed again.**

  A close that succeeds leaves no file open (`Sinks.settled_of_close`), and further closes pass by
  files that are not open: they and the disk stay as they are. The pass-through output is not closed
  but flushed, and so it is by every further close, which is refused if the flush is
  (`Sinks.exists_close_refused`). Only sinks without that output can be closed again without any
  effect.

  Main statement: after a close that succeeded, the next ones do nothing but flush the pass-through
  output, if there is one (`Sinks.close_again`).
-/
import StreamRelay.Proofs.Sink.Isolation

namespace StreamRelay

variable {disk : Disk}

/-! ### Files that are not open -/

namespace FileSink

variable {f : FileSink}

theorem settled_of_close (h : (f.close disk).result = .ok ()) : (f.close disk).state.1.Settled := by
  unfold FileSink.close at h ⊢
  split
  · next spool hstate =>
    simp only [hstate] at h ⊢
    split
    · next fault hflush =>
      rw [hflush] at h
      cases h
    · exact fun _ => FileState.noConfusion
  · next hclosed => exact hclosed

end FileSink

namespace Sinks

variable {s : Sinks} {files : List FileSink}

theorem settled_of_eachFile (h : (eachFile FileSink.close files disk).result = .ok ()) :
    ∀ file ∈ (eachFile FileSink.close files disk).state.1, file.Settled := by
  induction files generalizing disk with
  | nil => exact fun _ hmem => absurd hmem List.not_mem_nil
  | cons file files ih =>
    rw [eachFile] at h ⊢
    dsimp only at h ⊢
    split
    · next error hfirst =>
      rw [hfirst] at h
      cases h
    · next hfirst =>
      rw [hfirst] at h
      exact List.forall_mem_cons.2 ⟨FileSink.settled_of_close hfirst, ih h⟩

def Settled (s : Sinks) : Prop := ∀ file ∈ s.files, file.Settled

/-- **A close that succeeds leaves no file open.** -/
theorem settled_of_close (h : (s.close disk).result = .ok ()) : (s.close disk).state.1.Settled := by
  obtain ⟨pass, hstate⟩ := s.close_state disk
  have hfiles : (eachFile FileSink.close s.files disk).result = .ok () := by
    unfold close at h
    dsimp only at h
    split at h
    · cases h
    · next hfiles => exact hfiles
  rw [hstate]
  exact settled_of_eachFile hfiles

/-- **With no file open, to close is to flush the pass-through output.** -/
theorem Settled.close (h : s.Settled) (disk : Disk) :
    s.close disk = ⟨(s.flushPass.state, disk), s.flushPass.events, s.flushPass.result⟩ := by
  unfold Sinks.close
  rw [eachFile_settled h disk]
  rfl

end Sinks

/-! ### Flushes one after the other -/

def FlushStep.effect {σ : Type} (state : σ) : FlushStep → Effect SinkError σ
  | .done => ⟨state, [.flushed], .ok ()⟩
  | .fail fault => ⟨state, [], .error (.flush standardOutput fault)⟩

theorem FlushStep.effect_ne_quiet {σ : Type} (step : FlushStep) (state state' : σ) :
    step.effect state ≠ .quiet state' := by
  cases step with
  | done => exact fun h => List.cons_ne_nil _ _ (congrArg Effect.events h)
  | fail fault =>
    intro h
    have hresult : Except.error (SinkError.flush standardOutput fault) = .ok () :=
      congrArg Effect.result h
    cases hresult

namespace Outlet

def flushStep (o : Outlet) (n : Nat) : FlushStep := o.flushes[n]?.getD .done

def flushed (o : Outlet) (n : Nat) : Outlet := { o with flushes := o.flushes.drop n }

theorem flush_flushed (o : Outlet) (n : Nat) :
    (o.flushed n).flush =
      match o.flushStep n with
      | .done => ⟨o.flushed (n + 1), [.flushed], .ok ()⟩
      | .fail fault => ⟨o.flushed (n + 1), [], .error fault⟩ := by
  have hdrop : o.flushes.drop n = o.flushes[n]?.toList ++ o.flushes.drop (n + 1) :=
    List.drop_eq_getElem?_toList_append
  rcases hstep : o.flushes[n]? with _ | step
  · have hlength := List.getElem?_eq_none_iff.1 hstep
    have hnone : o.flushes.drop n = [] := List.drop_eq_nil_of_le hlength
    have hnext : o.flushes.drop (n + 1) = [] := List.drop_eq_nil_of_le (Nat.le_succ_of_le hlength)
    simp [flush, flushed, flushStep, hstep, hnone, hnext]
  · rw [hstep] at hdrop
    cases step <;> simp [flush, flushed, flushStep, hstep, hdrop]

end Outlet

namespace Sinks

variable {s : Sinks}

def flushed (s : Sinks) (n : Nat) : Sinks := { s with pass := s.pass.map (·.flushed n) }

theorem flushed_zero (s : Sinks) : s.flushed 0 = s := by
  have hid : (fun o : Outlet => o.flushed 0) = id := rfl
  rw [flushed, hid, Option.map_id]
  rfl

theorem Settled.flushed (h : s.Settled) (n : Nat) : (s.flushed n).Settled := h

/-- **A close of settled sinks is one more flush** of the pass-through output, if there is one. -/
theorem Settled.close_flushed (h : s.Settled) (disk : Disk) (n : Nat) :
    (s.flushed n).close disk =
      match s.pass with
      | none => .quiet (s.flushed n, disk)
      | some o => (o.flushStep n).effect (s.flushed (n + 1), disk) := by
  rw [(h.flushed n).close disk]
  rcases hpass : s.pass with _ | o
  · simp [flushPass, Sinks.flushed, hpass, Effect.quiet]
  · have hflush := o.flush_flushed n
    have hpass' : (s.flushed n).pass = some (o.flushed n) := by rw [Sinks.flushed, hpass]; rfl
    unfold flushPass
    rw [hpass']
    dsimp only
    rw [hflush]
    rcases hstep : o.flushStep n with _ | fault <;>
      simp only [Sinks.flushed, hpass, Option.map_some, FlushStep.effect] <;> rfl

theorem Settled.state_close_flushed (h : s.Settled) (disk : Disk) (n : Nat) :
    ((s.flushed n).close disk).state = (s.flushed (n + 1), disk) := by
  rw [h.close_flushed disk n]
  rcases hpass : s.pass with _ | o
  · simp [Sinks.flushed, hpass, Effect.quiet]
  · dsimp only
    cases o.flushStep n <;> rfl

/-! ### Closes one after the other -/

/-- **Closes of settled sinks add up to flushes**, and nothing else changes. -/
theorem Settled.after_closes (h : s.Settled) (disk : Disk) (n : Nat) :
    s.after disk (List.replicate n .close) = (s.flushed n, disk) := by
  induction n with
  | zero => rw [flushed_zero]; rfl
  | succ n ih =>
    rw [List.replicate_succ', after_concat, ih]
    exact h.state_close_flushed disk n

theorem isSome_pass_close (s : Sinks) (disk : Disk) :
    (s.close disk).state.1.pass.isSome = s.pass.isSome := by
  unfold close
  dsimp only
  split
  · rfl
  · obtain ⟨pass, hstate, hsome⟩ :=
      ({ s with files := (eachFile FileSink.close s.files disk).state.1 } : Sinks).flushPass_state
    rw [hstate]
    exact hsome

/-- **Once a close has succeeded, further closes do nothing but flush the pass-through output.**
    However often the sinks are closed after it, no file is open, and the files and the disk stay as
    they are. The next close is one more flush of the pass-through output, if there is one, and it
    is refused if that flush is. So a close has no further effect exactly if there is no such
    output. -/
theorem close_again (h : (s.close disk).result = .ok ()) (n : Nat) :
    let closed := (s.close disk).state
    let again := closed.1.after closed.2 (List.replicate n .close)
    again = (closed.1.flushed n, closed.2) ∧
      (∀ file ∈ again.1.files, file.Settled) ∧
      (again.1.close again.2 =
        match closed.1.pass with
        | none => .quiet again
        | some o => (o.flushStep n).effect (closed.1.flushed (n + 1), closed.2)) ∧
      (again.1.close again.2 = .quiet again ↔ s.pass = none) := by
  have hsettled := settled_of_close h
  have hpass := s.isSome_pass_close disk
  generalize (s.close disk).state = closed at hsettled hpass
  have hnext := hsettled.close_flushed closed.2 n
  dsimp only
  rw [hsettled.after_closes closed.2 n]
  refine ⟨rfl, hsettled, hnext, ?_⟩
  rw [hnext]
  rcases hclosed : closed.1.pass with _ | o
  · rw [hclosed] at hpass
    exact iff_of_true rfl (Option.isNone_iff_eq_none.1 (by simp [← Option.not_isSome, ← hpass]))
  · -- every flush shows, so only sinks without an output to flush are left as they are
    rw [hclosed] at hpass
    apply iff_of_false (FlushStep.effect_ne_quiet _ _ _)
    intro hnone
    rw [hnone] at hpass
    cases hpass

/-- A file that holds a byte back, and a pass-through output that takes two flushes: the byte is
    stored by the close, the next close is a flush, and the one after that is refused. -/
theorem close_again_until_refused :
    let s : Sinks := ⟨some ⟨[], [.done, .done, .fail .brokenPipe]⟩,
      [⟨"out", [], .opened ⟨.file "out", [], 0, [120]⟩⟩], false⟩
    let closed := (s.close (.ofFiles [("out", [])])).state
    let again := closed.1.after closed.2 [.close]
    closed.2.contents "out" = [120] ∧ again = (closed.1.flushed 1, closed.2) ∧
      closed.1.close closed.2 = ⟨(closed.1.flushed 1, closed.2), [.flushed], .ok ()⟩ ∧
      again.1.close again.2 = ⟨(closed.1.flushed 2, closed.2), [],
        .error (.flush standardOutput .brokenPipe)⟩ := by
  intro s closed again
  have hclose : (s.close (.ofFiles [("out", [])])).result = .ok () := by decide +kernel
  have hpass : closed.1.pass = some ⟨[], [.done, .fail .brokenPipe]⟩ := by decide +kernel
  obtain ⟨-, -, hnext, -⟩ := close_again hclose 0
  obtain ⟨hagain, -, hafter, -⟩ := close_again hclose 1
  rw [hpass] at hnext hafter
  exact ⟨by decide +kernel, hagain, hnext, hafter⟩

/-- **A close may be refused after one that succeeded**, and flushes again if it is not: a file was
    written to and is closed, and the pass-through output takes two flushes. -/
theorem exists_close_refused :
    let s := (Sinks.mk (some ⟨[], [.done, .done, .fail .brokenPipe]⟩) [.ofPath "out"] false).after
      (Disk.ofFiles []) [.files [120], .pass [121]]
    let first := s.1.close s.2
    let second := first.state.1.close first.state.2
    let third := second.state.1.close second.state.2
    first.result = .ok () ∧ first.state.1.files.map (·.state) = [.closed] ∧
      second.events = [.flushed] ∧ third.result = .error (.flush standardOutput .brokenPipe) := by
  decide +kernel

end Sinks

end StreamRelay
