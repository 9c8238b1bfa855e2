/-
  StreamRelay/Proofs/Framing/Schedule.lean
  ========================================
  **What an encoder writes does not depend on how its payload is shown to it.**

  An encoder is shown windows of a payload, each from the first byte on that was not taken yet. A
  window may be longer or shorter than the one before it, and shorter than what was withheld of that
  one. Between two calls the bytes taken so far end at a seam, wherever the windows ended: that
  carries what was written from call to call (`Written.call`).

  Main statement: however the calls are laid out, what is written in the end is the frame of what
  was taken, and that is the whole payload once a window was said to be the last
  (`run_writes_frame`).
-/
import StreamRelay.Proofs.Framing.Stuffing

namespace StreamRelay.Framing

/-- One call of an encoder. A window has a length, and ends with the payload at the latest. -/
inductive Call where
  | begin
  | encode (length : Nat) (last : Bool)
  | finish
deriving DecidableEq, Repr

/-- An encoder at work: the bytes of the payload not taken yet, and all that was written. -/
structure Session where
  encoder : Encoder
  rest : Bytes
  out : Bytes
deriving DecidableEq, Repr

namespace Session

variable {payload : Bytes} {s : Session}

def start (payload : Bytes) : Session := ⟨.fresh, payload, []⟩

def call (s : Session) : Call → Session
  | .begin => { s with encoder := s.encoder.begin.2, out := s.out ++ s.encoder.begin.1 }
  | .encode length last =>
    let e := Framing.encode (s.rest.take length) last
    { s with rest := s.rest.drop e.used, out := s.out ++ e.out }
  | .finish => { s with encoder := s.encoder.finish.2, out := s.out ++ s.encoder.finish.1 }

def run (s : Session) (calls : List Call) : Session := calls.foldl call s

/-- A window is only said to be the last if it reaches the end of the payload. -/
def Allows (s : Session) : Call → Prop
  | .encode length last => last → s.rest.length ≤ length
  | _ => True

instance (s : Session) (c : Call) : Decidable (s.Allows c) := by
  cases c <;> unfold Allows <;> infer_instance

def Follows : Session → List Call → Prop
  | _, [] => True
  | s, c :: calls => s.Allows c ∧ (s.call c).Follows calls

instance decidableFollows : (s : Session) → (calls : List Call) → Decidable (s.Follows calls)
  | _, [] => inferInstanceAs (Decidable True)
  | s, c :: calls =>
    have := decidableFollows (s.call c) calls
    inferInstanceAs (Decidable (s.Allows c ∧ (s.call c).Follows calls))

@[simp] theorem run_cons (s : Session) (c : Call) (calls : List Call) :
    s.run (c :: calls) = (s.call c).run calls := rfl

theorem run_append (s : Session) (first second : List Call) :
    s.run (first ++ second) = (s.run first).run second :=
  List.foldl_append

/-! ### Withheld bytes -/

/-- **What is withheld of a window that is not the last is part of a marker**, never all of it. -/
theorem withheld_eq (window : Bytes) :
    window.drop (Framing.encode window false).used = marker.take (pending window) := by
  rw [encode_eq]
  exact drop_pending window

/-! ### Between the escapes -/

/-- What a session has written of its payload: the start escape, and the bytes it has taken as they
    are put on the wire. They end at a seam, unless nothing follows them. -/
structure Written (payload done : Bytes) (s : Session) : Prop where
  encoder : s.encoder = .opened
  taken : done ++ s.rest = payload
  out : s.out = Tag.start.sequence ++ stuff done
  seam : Seam done s.rest ∨ s.rest = []

theorem written_begin (payload : Bytes) : Written payload [] ((start payload).call .begin) where
  encoder := rfl
  taken := rfl
  out := rfl
  seam := Or.inl (seam_nil payload)

theorem Written.encode {done : Bytes} (h : Written payload done s) (length : Nat) {last : Bool}
    (hlast : last → s.rest.length ≤ length) :
    Written payload (done ++ s.rest.take (Framing.encode (s.rest.take length) last).used)
      (s.call (.encode length last)) := by
  obtain ⟨used, hused⟩ : ∃ used, used = Framing.taken (s.rest.take length) last := ⟨_, rfl⟩
  have hle : used ≤ length := by
    rw [hused]
    exact Nat.le_trans (taken_le _ _) (List.length_take_le _ _)
  have hencode : Framing.encode (s.rest.take length) last = ⟨stuff (s.rest.take used), used⟩ := by
    rw [encode_eq, ← hused, List.take_take, Nat.min_eq_left hle]
  have hcall : s.call (.encode length last) =
      { s with rest := s.rest.drop used, out := s.out ++ stuff (s.rest.take used) } := by
    rw [call, hencode]
  rw [hcall, hencode]
  rcases h.seam with hseam | hnone
  · refine ⟨h.encoder, ?_, ?_, ?_⟩
    · rw [List.append_assoc, List.take_append_drop]
      exact h.taken
    · rw [hseam.stuff_append (List.take_prefix _ _), ← List.append_assoc, ← h.out]
    · cases last with
      | true =>
        -- the last window reaches to the end, and is taken whole
        right
        have hwhole := hlast rfl
        rw [List.take_of_length_le hwhole] at hused
        rw [hused]
        exact List.drop_eq_nil_of_le (Nat.le_refl _)
      | false =>
        left
        rcases Nat.eq_zero_or_pos length with hzero | hpos
        · -- an empty window shows nothing, and nothing changes
          have hnothing : used = 0 := by omega
          rw [hnothing, List.take_zero, List.append_nil, List.drop_zero]
          exact hseam
        · -- the cut is a seam in front of the window, and so in front of all that follows
          have hwindow : Seam done (s.rest.take length) := by
            refine hseam.imp_right fun hhead => ?_
            rw [← hhead, List.head?_take, if_neg (Nat.ne_of_gt hpos)]
          have htaken := hwindow.taken.append_right (s.rest.drop length)
          have hrest : (s.rest.take length).drop used ++ s.rest.drop length = s.rest.drop used := by
            rw [List.drop_take]
            have hskip : s.rest.drop length = (s.rest.drop used).drop (length - used) := by
              rw [List.drop_drop, Nat.add_sub_cancel' hle]
            rw [hskip, List.take_append_drop]
          rwa [← hused, List.take_take, Nat.min_eq_left hle, hrest] at htaken
  · -- nothing is left to take
    have hout := h.out
    refine ⟨h.encoder, ?_, ?_, Or.inr ?_⟩
    · rw [List.append_assoc, List.take_append_drop]
      exact h.taken
    · rw [hnone, List.take_nil, List.append_nil]
      exact (List.append_nil _).trans hout
    · rw [hnone]
      exact List.drop_nil

/-- **Each call that is allowed carries on what was written.** -/
theorem Written.call {done : Bytes} (h : Written payload done s) {c : Call} (hopen : c ≠ .finish)
    (hallows : s.Allows c) :
    ∃ more, Written payload (done ++ more) (s.call c) := by
  cases c with
  | begin =>
    refine ⟨[], ?_⟩
    have hsame : s.call .begin = s := by
      rw [Session.call, h.encoder]
      dsimp only [Encoder.begin]
      rw [List.append_nil, ← h.encoder]
    rw [hsame, List.append_nil]
    exact h
  | encode length last => exact ⟨_, h.encode length hallows⟩
  | finish => exact absurd rfl hopen

/-- **Whatever calls are made before the first `finish`**, what was written stands for what was
    taken. -/
theorem Written.run {done : Bytes} (h : Written payload done s) {calls : List Call}
    (hopen : .finish ∉ calls)
    (hfollows : s.Follows calls) : ∃ more, Written payload (done ++ more) (s.run calls) := by
  induction calls generalizing s done with
  | nil => exact ⟨[], by rwa [List.append_nil]⟩
  | cons c calls ih =>
    rw [List.mem_cons, not_or] at hopen
    obtain ⟨hallows, hrest⟩ := hfollows
    obtain ⟨first, hfirst⟩ := h.call (Ne.symm hopen.1) hallows
    obtain ⟨second, hsecond⟩ := ih hfirst hopen.2 hrest
    rw [List.append_assoc] at hsecond
    exact ⟨first ++ second, hsecond⟩

/-! ### The last window -/

theorem rest_call_suffix (s : Session) (c : Call) : (s.call c).rest <:+ s.rest := by
  cases c with
  | begin => exact List.suffix_rfl
  | encode length last => exact List.drop_suffix _ _
  | finish => exact List.suffix_rfl

theorem rest_run_suffix (s : Session) (calls : List Call) : (s.run calls).rest <:+ s.rest := by
  induction calls generalizing s with
  | nil => exact List.suffix_rfl
  | cons c calls ih => exact (ih (s.call c)).trans (rest_call_suffix s c)

/-- **A window that is said to be the last leaves nothing of the payload.** -/
theorem rest_eq_nil_of_last {calls : List Call} (hfollows : s.Follows calls) {length : Nat}
    (hlast : .encode length true ∈ calls) : (s.run calls).rest = [] := by
  induction calls generalizing s with
  | nil => cases hlast
  | cons c calls ih =>
    obtain ⟨hallows, hrest⟩ := hfollows
    rcases List.mem_cons.1 hlast with rfl | hlater
    · have hwhole : s.rest.length ≤ length := hallows rfl
      have hnone : (s.call (.encode length true)).rest = [] := by
        change s.rest.drop (Framing.encode (s.rest.take length) true).used = []
        rw [encode_eq, List.take_of_length_le hwhole]
        exact List.drop_eq_nil_of_le (Nat.le_refl _)
      have hsuffix := rest_run_suffix (s.call (.encode length true)) calls
      rw [hnone] at hsuffix
      exact List.suffix_nil.1 hsuffix
    · exact ih hrest hlater

/-! ### Behind the finish escape -/

/-- Once an encoder is closed only windows would write anything. -/
theorem run_closed (hclosed : s.encoder = .closed) {calls : List Call}
    (hquiet : ∀ length last, .encode length last ∉ calls) :
    s.run calls = s := by
  induction calls with
  | nil => rfl
  | cons c calls ih =>
    have hsame : s.call c = s := by
      cases c with
      | begin =>
        rw [call, hclosed]
        dsimp only [Encoder.begin]
        rw [List.append_nil, ← hclosed]
      | encode length last => exact absurd List.mem_cons_self (hquiet length last)
      | finish =>
        rw [call, hclosed]
        dsimp only [Encoder.finish]
        rw [List.append_nil, ← hclosed]
    rw [run_cons, hsame]
    exact ih fun length last hmem => hquiet length last (List.mem_cons_of_mem c hmem)

/-- **However its calls are laid out, an encoder writes the frame of what it took.** The calls begin
    with `begin`; then come windows of any length, and `begin` again if one likes; `finish` follows,
    and nothing but `finish` and `begin` after that. A window is only said to be the last if it
    reaches the end of the payload. If one is, or if all of the payload was taken without, that is
    the frame of the payload. What any other window withholds is part of the marker, nine bytes at
    most. -/
theorem run_writes_frame (payload : Bytes) {middle after : List Call} (hopen : .finish ∉ middle)
    (hquiet : ∀ length last, .encode length last ∉ after)
    (hfollows : (start payload).Follows (.begin :: middle)) :
    (∃ done, done ++ ((start payload).run (.begin :: (middle ++ .finish :: after))).rest = payload ∧
        ((start payload).run (.begin :: (middle ++ .finish :: after))).out =
          Tag.start.sequence ++ stuff done ++ Tag.finish.sequence) ∧
      ((∃ length, .encode length true ∈ middle) ∨
        ((start payload).run (.begin :: (middle ++ .finish :: after))).rest = [] →
        ((start payload).run (.begin :: (middle ++ .finish :: after))).out = frame payload) ∧
      ∀ window : Bytes, ∃ k, k ≤ 9 ∧
        window.drop (Framing.encode window false).used = marker.take k := by
  -- the invariant holds up to `finish`, and what comes behind that writes nothing
  obtain ⟨done, hwritten⟩ := (written_begin payload).run hopen hfollows.2
  rw [List.nil_append] at hwritten
  have hfinish : ((start payload).run (.begin :: (middle ++ .finish :: after))) =
      ⟨.closed, (((start payload).call .begin).run middle).rest,
        Tag.start.sequence ++ stuff done ++ Tag.finish.sequence⟩ := by
    rw [run_cons, run_append, run_cons]
    generalize ((start payload).call .begin).run middle = s at hwritten
    have hcall : s.call .finish = ⟨.closed, s.rest,
        Tag.start.sequence ++ stuff done ++ Tag.finish.sequence⟩ := by
      rw [call, hwritten.encoder, hwritten.out]
      rfl
    rw [hcall]
    exact run_closed rfl hquiet
  rw [hfinish]
  refine ⟨⟨done, hwritten.taken, rfl⟩, fun hall => ?_, fun window => ?_⟩
  · have hnone : (((start payload).call .begin).run middle).rest = [] := by
      rcases hall with ⟨length, hlast⟩ | hnone
      · exact rest_eq_nil_of_last hfollows.2 hlast
      · exact hnone
    have htaken := hwritten.taken
    rw [hnone, List.append_nil] at htaken
    rw [htaken, frame]
  · exact ⟨pending window, Nat.le_of_lt_succ (pending_lt window), withheld_eq window⟩

/-- A window that ends in a marker, one that is shorter than what the window before it withheld, and
    a marker cut in two. -/
theorem run_writes_frame_of_shrinking_windows :
    ((start (marker ++ marker.take 6)).run
      [.begin, .begin, .encode 9 false, .encode 4 false, .encode 0 false, .encode 12 false,
        .encode 40 false,
        .encode 6 true, .encode 3 true, .finish, .finish]).out =
          frame (marker ++ marker.take 6) := by
  have hframe := @run_writes_frame (marker ++ marker.take 6)
    [.begin, .encode 9 false, .encode 4 false, .encode 0 false, .encode 12 false, .encode 40 false,
    .encode 6 true,
      .encode 3 true] [.finish] (by decide) (by simp) (by decide)
  exact hframe.2.1 (Or.inl ⟨6, by decide⟩)

end Session

end StreamRelay.Framing
