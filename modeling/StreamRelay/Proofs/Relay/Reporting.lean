/-
  StreamRelay/Proofs/Relay/Reporting.lean
  =======================================
  **The progress of a run is that of a sequence of calls.**

  A relay tells its progress of each release and has it look at the moment of each turn; nothing
  else of a relay touches its progress or writes progress text. So wherever a relay has come to, its
  progress and the text of it are those of a sequence of calls that tell of as many bytes as were
  released (`Tells`), also of none where all that was granted is withheld. What holds after any
  calls that go through therefore holds of whole runs.

  Main statements: the progress of a run that succeeds (`run_tells`), and its dots
  (`dots_follow_totals`).
-/
import StreamRelay.Proofs.Relay.AllOrNothing
import StreamRelay.Proofs.Report.Dots

namespace StreamRelay

/-! ### Events without a word of progress -/

theorem Event.progress_of_isOpening {event : Event} (h : event.isOpening) :
    event.progress = "" := by
  cases event <;> simp [isOpening] at h <;> rfl

theorem Event.progress_of_isFiling {event : Event} (h : event.isFiling) : event.progress = "" := by
  cases event <;> simp [isFiling] at h <;> rfl

namespace Journal

variable {events : List Event}

theorem progress_append (j : Journal) (events : List Event) :
    Journal.progress (j ++ events) = j.progress ++ String.join (events.map Event.progress) := by
  simp [Journal.progress]

theorem progress_append_quiet (j : Journal) (h : ∀ event ∈ events, event.progress = "") :
    Journal.progress (j ++ events) = j.progress := by
  have hquiet : String.join (events.map Event.progress) = "" := by
    induction events with
    | nil => rfl
    | cons event events ih =>
      obtain ⟨hevent, hevents⟩ := List.forall_mem_cons.1 h
      rw [List.map_cons, String.join_cons, hevent, ih hevents, String.append_empty]
  rw [progress_append, hquiet, String.append_empty]

end Journal

namespace Relay

variable {r r' r₁ last : Relay} {first : Progress} {calls : List Progress.Call} {input : Bytes}
  {permit n : Nat}

theorem join_progressing (text : String) :
    String.join ((progressing text).map Event.progress) = text := by
  unfold progressing
  split
  · next hempty => exact (String.isEmpty_iff.1 hempty).symm
  · simp [Event.progress]

theorem progress_pausing (span : Duration) : ∀ event ∈ pausing span, event.progress = "" := by
  unfold pausing
  split <;> simp [Event.progress]

/-! ### Parts that leave progress alone -/

structure Mute (r r' : Relay) : Prop where
  progress : r'.progress = r.progress
  bytesReleased : r'.bytesReleased = r.bytesReleased
  text : r'.journal.progress = r.journal.progress

theorem Mute.refl (r : Relay) : Mute r r := ⟨rfl, rfl, rfl⟩

theorem Mute.trans (h : Mute r r₁) (h' : Mute r₁ r') : Mute r r' :=
  ⟨h'.progress.trans h.progress, h'.bytesReleased.trans h.bytesReleased, h'.text.trans h.text⟩

theorem mute_log (r : Relay) (events : List Event) (h : ∀ event ∈ events, event.progress = "") :
    Mute r (r.log events) :=
  ⟨rfl, rfl, Journal.progress_append_quiet r.journal h⟩

theorem mute_pause (r : Relay) (span : Duration) : Mute r (r.pause span) := by
  rw [pause_eq]
  exact ⟨rfl, rfl, Journal.progress_append_quiet r.journal (progress_pausing span)⟩

theorem mute_readInput (r : Relay) : Mute r (standing r.readInput) := by
  have hread (want : Nat) (answer : ReadAnswer) :
      Journal.progress (r.journal ++ [Event.read want answer]) = r.journal.progress :=
    Journal.progress_append_quiet r.journal (by simp [Event.progress])
  unfold readInput
  dsimp only
  split
  · exact ⟨rfl, rfl, rfl⟩
  · split
    · unfold take
      dsimp only
      split <;> exact ⟨rfl, rfl, hread _ _⟩
    all_goals exact ⟨rfl, rfl, hread _ _⟩

theorem mute_awaitInput (r : Relay) : Mute r (standing r.awaitInput) := by
  have hlog (source : Source) (event : Event) (h : event.progress = "") :
      Mute r ({ r with source }.log [event]) :=
    ⟨rfl, rfl, Journal.progress_append_quiet r.journal (by simp [h])⟩
  unfold awaitInput
  split
  · split
    · exact hlog _ .waitFailed rfl
    · next isReady source _ =>
      cases isReady with
      | true => exact (hlog source (.waited true) rfl).trans (mute_readInput _)
      | false => exact hlog source (.waited false) rfl
  · exact mute_readInput r

theorem mute_filled (r : Relay) : Mute r (standing r.filled) := by
  unfold filled fill
  split
  · exact .refl r
  · split
    · split
      · split
        · exact .refl r
        · next buffer _ =>
          have hgrew : Mute r ({ r with buffer }.log [.grew buffer.capacity]) :=
            ⟨rfl, rfl, Journal.progress_append_quiet r.journal (by simp [Event.progress])⟩
          exact hgrew.trans (mute_awaitInput _)
      · exact .refl r
    · exact mute_awaitInput r

theorem mute_validate (r : Relay) : Mute r (standing r.validate) := by
  unfold validate
  split
  · exact .refl r
  · dsimp only
    split <;> exact ⟨rfl, rfl, rfl⟩

theorem mute_passOnly (r : Relay) (bytes : Bytes) : Mute r (standing (r.passOnly bytes)) := by
  have hwritten : Journal.progress (r.journal ++ (r.sinks.writePass bytes).events) =
      r.journal.progress :=
    Journal.progress_append_quiet _ fun event hmem =>
      Event.progress_of_isOpening (isOpening_writePass _ _ event hmem)
  unfold passOnly
  dsimp only
  split <;> exact ⟨rfl, rfl, hwritten⟩

theorem mute_begin (r : Relay) : Mute r (standing r.begin) := by
  have hopened : Mute r r.opened := ⟨rfl, rfl, rfl⟩
  rw [begin_eq]
  exact hopened.trans (mute_passOnly r.opened r.prelude)

theorem mute_finishFraming (r : Relay) : Mute r (standing r.finishFraming) := by
  have hfinished : Mute r r.finished := ⟨rfl, rfl, rfl⟩
  rw [finishFraming_eq]
  exact hfinished.trans (mute_passOnly r.finished r.finale)

theorem mute_closeSinks (r : Relay) : Mute r (standing r.closeSinks) := by
  have hclosed : ∀ event ∈ (r.sinks.close r.disk).events, event.progress = "" := by
    have hfiles := Sinks.isFiling_eachFile FileSink.isFiling_close r.sinks.files r.disk
    unfold Sinks.close
    dsimp only
    split
    · exact fun event hmem => Event.progress_of_isFiling (hfiles event hmem)
    · rw [List.forall_mem_append]
      exact ⟨fun event hmem => Event.progress_of_isFiling (hfiles event hmem),
        fun event hmem => Event.progress_of_isOpening (isOpening_flushPass _ event hmem)⟩
  unfold closeSinks
  dsimp only
  split <;> exact ⟨rfl, rfl, Journal.progress_append_quiet r.journal hclosed⟩

/-! ### Progress along a run -/

/-- The progress of a relay and its text are those of calls, which tell of as many bytes as were
    released. -/
structure Tells (first : Progress) (calls : List Progress.Call) (r : Relay) : Prop where
  progress : first.after? calls = .ok r.progress
  text : r.journal.progress = first.written calls
  released : r.bytesReleased = Progress.released calls

theorem Tells.mute (h : Tells first calls r) (hmute : Mute r r') : Tells first calls r' :=
  ⟨hmute.progress.symm ▸ h.progress, hmute.text.trans h.text,
    hmute.bytesReleased.trans h.released⟩

/-- **A call that goes through is told of, and what it writes is written down**, in a journal with
    no more words of progress than before. -/
theorem Tells.answer (h : Tells first calls r) (call : Progress.Call) (journal : Journal)
    (hquiet : journal.progress = r.journal.progress)
    (hprogress : (r.progress.answer call).2 = .ok r'.progress)
    (hjournal : r'.journal = journal ++ progressing (r.progress.answer call).1)
    (hreleased : r'.bytesReleased = r.bytesReleased + call.released) :
    Tells first (calls ++ [call]) r' := by
  constructor
  · rw [Progress.after?_snoc_of_ok h.progress, hprogress]
  · rw [hjournal, Journal.progress_append, hquiet, join_progressing, h.text,
      Progress.written_snoc h.progress]
  · rw [hreleased, h.released, Progress.released_append, Progress.released_singleton]

theorem Tells.drop (h : Tells first calls r) (hdrop : r.drop n = .ok r') :
    Tells first (calls ++ [.advance n]) r' := by
  unfold Relay.drop at hdrop
  split at hdrop
  · cases hdrop
  · next text progress hadvance =>
    have hanswer : r.progress.answer (.advance n) = (text, .ok progress) := by
      rw [Progress.answer, hadvance]
    dsimp only at hdrop
    rw [logProgress_eq] at hdrop
    rcases hcount : addCount? r.bytesReleased n with e | bytesReleased
    · simp only [log, hcount] at hdrop
      cases hdrop
    · obtain ⟨rfl, -⟩ := addCount?_eq_ok hcount
      simp only [log, hcount] at hdrop
      cases hdrop
      exact h.answer (.advance n) r.journal rfl (by rw [hanswer]) (by rw [hanswer]) rfl

/-- **A release is told of with the bytes that it took**, which are none if all of them are
    withheld. -/
theorem Tells.release (h : Tells first calls r) (hrelease : r.release permit = .ok (r', n)) :
    Tells first (calls ++ [.advance n]) r' := by
  have hpassed : Journal.progress (r.journal ++ (r.passing permit).events) = r.journal.progress :=
    Journal.progress_append_quiet _ fun event hmem =>
      Event.progress_of_isOpening (isOpening_writePass _ _ event hmem)
  have hstored : Journal.progress (r.journal ++ (r.passing permit).events ++
      (r.storing permit).events) = r.journal.progress := by
    refine (Journal.progress_append_quiet _ fun event hmem => ?_).trans hpassed
    exact Event.progress_of_isFiling (Sinks.isFiling_writeFiles _ _ _ event hmem)
  have hreleased : Journal.progress (r.journal ++ (r.passing permit).events ++
      (r.storing permit).events ++ [Event.released (r.portion permit).used]) =
        r.journal.progress :=
    (Journal.progress_append_quiet _ (by simp [Event.progress])).trans hstored
  unfold Relay.release at hrelease
  simp only [ReadBuffer.viewTo_eq] at hrelease
  split at hrelease
  · cases hrelease
  · split at hrelease
    · cases hrelease
    · generalize hdropped : Relay.drop _ _ = result at hrelease
      cases result with
      | error halt => cases hrelease
      | ok after =>
        cases hrelease
        refine Tells.drop ?_ hdropped
        exact h.mute ⟨rfl, rfl, hreleased⟩

theorem Tells.releaseReady (h : Tells first calls r) (hserve : r.releaseReady = .ok r') :
    ∃ more, Tells first (calls ++ more) r' := by
  unfold Relay.releaseReady at hserve
  split at hserve
  · split at hserve
    · cases hserve
      exact ⟨[], by rwa [List.append_nil]⟩
    · rcases hrelease : r.release r.releasable with halt | ⟨stood, n⟩
      · rw [hrelease] at hserve
        cases hserve
      · rw [hrelease] at hserve
        cases hserve
        exact ⟨_, h.release hrelease⟩
  · -- pauses, grants and what the limiter records are no calls of progress
    dsimp only at hserve
    split at hserve
    · cases hserve
    · next limiter _ _ grant _ =>
      have hpaused := h.mute (mute_pause r grant.pause)
      split at hserve
      · cases hserve
        exact ⟨[], by rwa [List.append_nil]⟩
      · split at hserve
        · cases hserve
        · next stood n hrelease =>
          have hgranted := hpaused.mute (mute_log _
            [.granted grant.permit r.releasable limiter.released] (by simp [Event.progress]))
          split at hserve
          · cases hserve
          · next recorded _ =>
            have hrecorded : Mute stood { stood with limiter := some recorded } := ⟨rfl, rfl, rfl⟩
            have hreleased := (hgranted.release hrelease).mute hrecorded
            cases hserve
            refine ⟨_, hreleased.mute ?_⟩
            split
            · exact (mute_log _ [.stalled recorded.released] (by simp [Event.progress])).trans
                (mute_pause _ _)
            · exact .refl _

theorem Tells.tick (h : Tells first calls r) (htick : r.tick = .ok r') :
    ∃ more, Tells first (calls ++ more) r' := by
  unfold Relay.tick at htick
  split at htick
  · cases htick
    exact ⟨[], by rwa [List.append_nil]⟩
  · next now instants _ =>
    rcases hlooked : r.progress.tick? now with ⟨text, e | progress⟩
    · rw [hlooked] at htick
      cases htick
    · rw [hlooked] at htick
      dsimp only at htick
      rw [logProgress_eq] at htick
      cases htick
      have hanswer : r.progress.answer (.tick now) = (text, .ok progress) := hlooked
      refine ⟨[.tick now], h.answer (.tick now) r.journal rfl ?_ ?_ rfl⟩
      · rw [hanswer]
      · rw [hanswer]
        rfl

/-- **A turn is some more calls.** -/
theorem Tells.turn (h : Tells first calls r) (hturn : r.turn = .ok r') :
    ∃ more, Tells first (calls ++ more) r' := by
  obtain ⟨r₁, r₂, r₃, hfilled, hvalidate, hserve, htick⟩ := turn_ok hturn
  have hmute₁ := mute_filled r
  rw [hfilled] at hmute₁
  have hmute₂ := mute_validate r₁
  rw [hvalidate] at hmute₂
  obtain ⟨more, hserved⟩ := (h.mute (hmute₁.trans hmute₂)).releaseReady hserve
  obtain ⟨rest, hlooked⟩ := hserved.tick htick
  exact ⟨more ++ rest, by rwa [← List.append_assoc]⟩

/-- **So is any number of them.** -/
theorem Reaches.tells (h : Reaches r input r') (hstart : Tells first [] r) :
    ∃ calls, Tells first calls r' := by
  refine h.preserves (P := fun _ r => ∃ calls, Tells first calls r) ?_ ⟨[], hstart⟩
  rintro _ r r' ⟨calls, htells⟩ _ hturn
  obtain ⟨more, hmore⟩ := htells.turn hturn
  exact ⟨_, hmore⟩

/-- Closing writes what closes the progress line, and nothing else of progress. -/
theorem finish_progress (h : r.finish = .ok r') :
    r'.journal.progress = r.journal.progress ++ r.progress.finish.1 ∧
    r'.bytesReleased = r.bytesReleased := by
  have hclose : r.finish =
      (r.log (progressing r.progress.finish.1)).finishFraming.bind closeSinks := by
    rw [← logProgress_eq]
    rfl
  have hframed := mute_finishFraming (r.log (progressing r.progress.finish.1))
  rw [hclose] at h
  rcases hfinish : (r.log (progressing r.progress.finish.1)).finishFraming with halt | stood
  · rw [hfinish] at h
    cases h
  · rw [hfinish] at h hframed
    change stood.closeSinks = .ok r' at h
    have hclosed := mute_closeSinks stood
    rw [h] at hclosed
    refine ⟨(hclosed.text.trans hframed.text).trans ?_,
      hclosed.bytesReleased.trans hframed.bytesReleased⟩
    exact (Journal.progress_append _ _).trans (by rw [join_progressing])

/-! ### Whole runs -/

variable {options : Options} {source : Source} {sinks : Sinks} {disk : Disk} {machine : Machine}
  {result : Outcome} {report : Report}

theorem Starts.tells {stood : Relay} (h : Starts options source sinks disk machine stood) :
    Tells (.start .working options.dotEvery options.rateEvery) [] stood := by
  obtain ⟨r, hprepare, hbegin⟩ := h
  obtain ⟨o, warnings, buffer, progress, hvalidate, _, hprogress, rfl⟩ := prepare_ok hprepare
  have hstarted : progress = .start .working options.dotEvery options.rateEvery := by
    obtain ⟨rfl, _⟩ := Options.validate_ok hvalidate
    exact Progress.start?_ok hprogress
  have hquiet : Journal.progress warnings.toArray = "" := by
    have hwarned := Journal.progress_append_quiet #[] fun event hmem =>
      Event.progress_of_isOpening (Options.isOpening_warnings hvalidate event hmem)
    simpa [Journal.progress] using hwarned
  have hmute := mute_begin (ofOptions o source sinks disk machine buffer progress warnings)
  rw [hbegin] at hmute
  exact Tells.mute ⟨congrArg Except.ok hstarted.symm, hquiet, rfl⟩ hmute

/-- **The progress of a run that succeeds is that of calls which go through and tell of all that was
    released**, and of closing the progress line after them. -/
theorem run_tells (hrun : run options source sinks disk machine = some result)
    (hresult : result.result = .ok report) :
    ∃ calls p, (Progress.start .working options.dotEvery options.rateEvery).after? calls = .ok p ∧
      Progress.released calls = report.bytesReleased ∧
      result.journal.progress =
        (Progress.start .working options.dotEvery options.rateEvery).written calls ++
          p.finish.1 := by
  cases course hrun with
  | unprepared _ houtcome | unopened _ _ houtcome | halted _ _ _ _ _ houtcome =>
    rw [houtcome] at hresult
    cases hresult
  | @closed stood last hstarts hreaches _ houtcome =>
    obtain ⟨calls, htells⟩ := hreaches.tells hstarts.tells
    subst houtcome
    rcases hfinish : last.finish with halt | closed
    · rw [hfinish] at hresult
      cases hresult
    · rw [hfinish] at hresult
      cases hresult
      obtain ⟨htext, hreleased⟩ := finish_progress hfinish
      have hgiven : Journal.progress (outcome (.ok closed)).journal = closed.journal.progress :=
        Journal.progress_append_quiet _ fun event hmem =>
          Event.progress_of_isFiling (Sinks.isFiling_release _ _ event hmem)
      refine ⟨calls, last.progress, htells.progress,
        htells.released.symm.trans hreleased.symm, ?_⟩
      rw [hgiven, htext, htells.text]

variable {d : Nat}

/-- **A run that succeeds shows a dot for each whole block that it released, and closes the
    line.** -/
theorem run_dots (hd : 0 < d) (hevery : options.dotEvery = d) (hrate : options.rateEvery = none)
    (hrun : run options source sinks disk machine = some result)
    (hresult : result.result = .ok report) :
    result.journal.progress = Progress.dots (report.bytesReleased / d) ++ "\n" := by
  obtain ⟨calls, p, hafter, hreleased, htext⟩ := run_tells hrun hresult
  rw [hevery, hrate] at htext hafter
  have hclosed : p.finish.1 = "\n" := by
    obtain ⟨houtlet, hshown, -, -, -⟩ := Progress.tally_after hafter
    rw [Progress.finish, houtlet, hshown, if_pos (by simp [hd])]
    rfl
  rw [htext, Progress.written_eq_dots hd hafter, hreleased, hclosed]
  rfl

/-- **Wherever a relay has come to, its accounts are of what it has released**, whatever takes the
    dots. -/
theorem Reaches.tally {stood : Relay} (outlet : ProgressOutlet)
    (hstarts : Starts options source sinks disk machine stood)
    (h : Reaches { stood with progress := stood.progress.via outlet } input r) :
    Progress.Tally outlet options.dotEvery options.rateEvery r.bytesReleased r.progress := by
  obtain ⟨hprogress, htext, hreleased⟩ := hstarts.tells
  have hfirst : Tells (.start outlet options.dotEvery options.rateEvery) [] { stood with
      progress := stood.progress.via outlet } := by
    refine ⟨?_, htext, hreleased⟩
    rw [← Except.ok.inj hprogress]
    rfl
  obtain ⟨calls, htells⟩ := h.tells hfirst
  rw [htells.released]
  exact Progress.tally_after htells.progress

/-- **Dots depend on totals alone.** However a sum of releases that can be counted is split, it goes
    through, and a working outlet holds a dot for each whole block of it; a sum that cannot be
    counted does not go through. A run that succeeds shows the dots of all that it released and one
    line feed. An outlet that refuses every write leaves the accounts as they are, also those of a
    relay, and every later rate line as it would be. -/
theorem dots_follow_totals (hd : 0 < d) :
    (∀ releases : List Nat, releases.sum < countLimit →
      (∃ p, (Progress.start .working d none).after? (releases.map .advance) = .ok p) ∧
        (Progress.start .working d none).written (releases.map .advance) =
          Progress.dots (releases.sum / d)) ∧
    (∀ releases : List Nat, countLimit ≤ releases.sum →
      (Progress.start .working d none).after? (releases.map .advance) = .error .sum) ∧
    (∀ options source sinks disk machine result report, options.dotEvery = d →
      options.rateEvery = none → run options source sinks disk machine = some result →
      result.result = .ok report →
      result.journal.progress = Progress.dots (report.bytesReleased / d) ++ "\n") ∧
    (∀ onWrite onFlush rateEvery calls,
      (Progress.start (.broken onWrite onFlush) d rateEvery).after? calls =
        ((Progress.start .working d rateEvery).after? calls).map
          (·.via (.broken onWrite onFlush)) ∧
      ∀ p, (Progress.start .working d rateEvery).after? calls = .ok p →
        p.total = Progress.released calls ∧ p.dotPending = Progress.released calls % d ∧
        ∀ now, (p.via (.broken onWrite onFlush)).offered (.tick now) = (p.tick? now).1) ∧
    (∀ options source sinks disk machine stood outlet input r, options.dotEvery = d →
      Starts options source sinks disk machine stood →
      Reaches { stood with progress := stood.progress.via outlet } input r →
      r.progress.total = r.bytesReleased ∧ r.progress.dotPending = r.bytesReleased % d) := by
  have hpending {outlet : ProgressOutlet} {rateEvery : Option Duration} {sum : Nat} {p : Progress}
      (h : Progress.Tally outlet d rateEvery sum p) : p.dotPending = sum % d := by
    rw [h.dotPending, if_neg (Nat.ne_of_gt hd)]
  refine ⟨fun releases hsum => ?_, fun releases => Progress.after?_of_le .working d releases,
    fun _ _ _ _ _ _ _ => run_dots hd, fun onWrite onFlush rateEvery calls => ⟨?_, ?_⟩,
    fun options _ _ _ _ _ outlet _ _ hevery hstarts hreaches => ?_⟩
  · have hcounted : Progress.released (releases.map .advance) < countLimit := by
      rwa [Progress.released_map_advance]
    obtain ⟨p, hp⟩ := Progress.exists_after? .working d hcounted fun now every hmem => by
      simp at hmem
    refine ⟨⟨p, hp⟩, ?_⟩
    rw [Progress.written_eq_dots hd hp, Progress.released_map_advance]
    rfl
  · exact Progress.after?_via (.start .working d rateEvery) (.broken onWrite onFlush) calls
  · -- the tally does not mention what the outlet takes
    intro p hp
    have htally := Progress.tally_after hp
    refine ⟨htally.total, hpending htally, fun now => ?_⟩
    change _ = (p.answer (.tick now)).1
    rw [Progress.offered_via, Progress.answer_fst, htally.outlet]
    rfl
  · have htally := hreaches.tally outlet hstarts
    rw [hevery] at htally
    exact ⟨htally.total, hpending htally⟩

/-- Five bytes in two reads complete two blocks of two. -/
theorem dots_of_five_bytes :
    0 < 2 ∧ ∃ result report,
      run { dotEvery := 2 } (.feed ⟨[], [.bytes [97, 98, 99], .bytes [100, 101]]⟩ [])
          ⟨none, [], false⟩ (Disk.ofFiles []) ⟨1048576, []⟩ = some result ∧
      result.result = .ok report ∧ report.bytesReleased = 5 ∧
      result.journal.progress = Progress.dots 2 ++ "\n" := by
  have hcourse :
      (run { dotEvery := 2 } (.feed ⟨[], [.bytes [97, 98, 99], .bytes [100, 101]]⟩ [])
        ⟨none, [], false⟩ (Disk.ofFiles []) ⟨1048576, []⟩).map (·.result) =
      some (.ok ⟨5, 5, 0, none⟩) := by
    decide +kernel
  obtain ⟨result, hrun, hresult⟩ := Option.map_eq_some_iff.1 hcourse
  have htext := (dots_follow_totals (d := 2) (by decide)).2.2.1 _ _ _ _ _ _ _ rfl rfl hrun hresult
  exact ⟨by decide, result, _, hrun, hresult, rfl, htext⟩

/-- **Releases whose sum cannot be counted do not go through**: of two blocks of 2⁶³ bytes each, the
    second has no dot. -/
theorem exists_releases_past_counting :
    ∃ releases : List Nat, releases.sum / 9223372036854775808 = 2 ∧
      (Progress.start .working 9223372036854775808 none).after? (releases.map .advance) =
        .error .sum ∧
      (Progress.start .working 9223372036854775808 none).written (releases.map .advance) = "." := by
  refine ⟨[9223372036854775808, 9223372036854775808], by decide, ?_, by decide +kernel⟩
  exact Progress.after?_of_le .working _ _ (by decide)

end Relay

end StreamRelay
