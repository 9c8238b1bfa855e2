/-
  StreamRelay/Proofs/Relay/Touching.lean
  ======================================
  **Files are touched when a block is handed to them, and only then.**

  A turn hands a block to the files if it has payload to release and the pass-through output accepts
  its part of that (`handing`). No other turn touches a file, nor does opening or closing. A block
  may be empty: where the pass-through output is framed, all that was granted is withheld if it is a
  part of the marker that more payload may complete. Such a block opens and empties the files like
  any other, and if the run fails before the next one, they stay empty.

  The invariant of a relay between two turns is `Spares`: the files are as they were or a block was
  handed to them, and if all blocks were empty then so is what they hold.

  Main statements: `run_touches_files_for_blocks`, and a run that empties a file and releases
  nothing (`exists_file_emptied_for_nothing`).
-/
import StreamRelay.Proofs.Relay.AllOrNothing

namespace StreamRelay

open Framing

/-! ### Files that nothing was handed to -/

namespace Sinks

variable {s s' : Sinks} {disk start : Disk}

def Unopened (start : Disk) (s : Sinks) (disk : Disk) : Prop :=
  (∀ file ∈ s.files, file.state = .unopened) ∧ disk = start

theorem Unopened.congr (h : Unopened start s disk) (hfiles : s'.files = s.files) :
    Unopened start s' disk := by
  unfold Unopened
  rw [hfiles]
  exact h

theorem Unopened.untouched (h : Unopened start s disk) : Untouched s.files start s disk :=
  ⟨rfl, h.2, h.1⟩

/-- Closing files that nothing was handed to does nothing to them, whatever becomes of the
    pass-through output. -/
theorem Unopened.close (h : Unopened start s disk) :
    Unopened start (s.close disk).state.1 (s.close disk).state.2 := by
  obtain ⟨pass, hclose⟩ := s.close_state disk
  rw [hclose, h.untouched.closing]
  exact h

theorem Unopened.release (h : Unopened start s disk) : (s.release disk).1 = start := by
  rw [h.untouched.release_eq]
  exact h.2

end Sinks

namespace Relay

/-! ### What a turn hands to the files -/

/-- A block that is handed to the files, and the bytes that it was taken from. -/
structure Handover where
  granted : Bytes
  block : Bytes
deriving DecidableEq

variable {o options : Options} {r r' r₁ r₂ first mid second : Relay} {halt : Halt}
  {start disk : Disk} {source : Source}
  {sinks : Sinks} {machine : Machine} {input before released : Bytes} {hand : Handover}

/-- The block that releasing what may be released hands to the files. There is none if nothing may
    be released, if the limiter cannot reckon, or if the pass-through output fails. -/
def offering (r : Relay) : Option Handover :=
  if r.Reckons ∧ 0 < r.granted.permit then
    match (r.passing r.granted.permit).result with
    | .error _ => none
    | .ok () => some ⟨r.buffer.view.take r.granted.permit, r.block r.granted.permit⟩
  else none

/-- **The block that a turn hands to the files**, if its input can be read and vouched for. -/
def handing (r : Relay) : Option Handover :=
  match r.filled.bind validate with
  | .error _ => none
  | .ok ready => ready.offering

def handed (hand : Option Handover) : Bytes := hand.elim [] Handover.block

theorem handing_eq (hfilled : r.filled = .ok r₁) (hvalidate : r₁.validate = .ok r₂) :
    r.handing = r₂.offering := by
  rw [handing, hfilled, Except.bind, hvalidate]

theorem offering_of_passing (hreckons : r.Reckons) (hsome : 0 < r.granted.permit)
    (hpassing : (r.passing r.granted.permit).result = .ok ()) :
    r.offering = some ⟨r.buffer.view.take r.granted.permit, r.block r.granted.permit⟩ := by
  rw [offering, if_pos ⟨hreckons, hsome⟩, hpassing]

theorem offering_eq_some (h : r.offering = some hand) :
    0 < r.granted.permit ∧
      hand = ⟨r.buffer.view.take r.granted.permit, r.block r.granted.permit⟩ := by
  unfold offering at h
  split at h
  · next hgoes =>
    split at h
    · cases h
    · exact ⟨hgoes.2, (Option.some.inj h).symm⟩
  · cases h

/-- **Only a part of the marker is withheld as a whole**, and only from framing. -/
theorem Ledger.block_offering (h : Ledger o input released r) (hoffering : r.offering = some hand) :
    hand.granted ≠ [] ∧ hand.granted <+: r.ready ∧
      (hand.block = [] → o.writeFraming ∧ ∃ k, 0 < k ∧ k < marker.length ∧
        hand.granted = marker.take k) := by
  obtain ⟨hsome, rfl⟩ := offering_eq_some hoffering
  obtain ⟨_, hpermit⟩ := granted_ready h.validated_le hsome
  have hlength : (r.buffer.view.take r.granted.permit).length = r.granted.permit := by
    rw [view_take_ready hpermit, List.length_take_of_le hpermit]
  have hgranted : r.buffer.view.take r.granted.permit ≠ [] := by
    apply List.ne_nil_of_length_pos
    rw [hlength]
    exact hsome
  refine ⟨hgranted, view_take_ready hpermit ▸ List.take_prefix _ _, fun hblock => ?_⟩
  change (r.buffer.view.take r.granted.permit).take (r.portion r.granted.permit).used = [] at hblock
  have hnone := (List.take_eq_nil_iff.1 hblock).resolve_right hgranted
  rcases hencoder : r.encoder with _ | e
  · rw [portion_plain hencoder] at hnone
    exact absurd hnone (Nat.ne_of_gt hsome)
  · have hframing : o.writeFraming := by
      by_contra hplain
      have := h.encoder
      rw [if_neg hplain, hencoder] at this
      cases this
    -- a window that the encoder takes nothing of is one that it holds back as a whole
    rw [portion_framed hencoder] at hnone
    generalize r.buffer.view.take r.granted.permit = window at hlength hgranted hnone
    have hpos := List.length_pos_iff.2 hgranted
    have hall : window.length ≤ pending window := by
      dsimp only [taken] at hnone
      split at hnone <;> omega
    have hwindow := drop_pending window
    rw [Nat.sub_eq_zero_of_le hall, List.drop_zero] at hwindow
    exact ⟨hframing, pending window, Nat.lt_of_lt_of_le hpos hall, pending_lt window, hwindow⟩

/-- What a relay leaves that was to hand a block to the files, or none: without a block files and
    disk are as they were, and with one the files hold nothing but that and what was released
    before. -/
structure Hands (start : Disk) (released : Bytes) (hand : Option Handover) (r after : Relay) :
    Prop where
  idle : hand = none → after.sinks.files = r.sinks.files ∧ after.disk = r.disk
  fits : after.sinks.Fits start (released ++ handed hand) after.disk

theorem TakesIn.stored (h : TakesIn r r') (hstored : r.sinks.Stored start released r.disk) :
    r'.sinks.Stored start released r'.disk := by
  rw [h.sinks, h.disk]
  exact hstored

theorem TakesIn.hands (h : TakesIn r r') (hstored : r.sinks.Stored start released r.disk) :
    Hands start released none r r' := by
  refine ⟨fun _ => ⟨congrArg Sinks.files h.sinks, h.disk⟩, ?_⟩
  have hfits := (h.stored hstored).fits
  rwa [← List.append_nil released] at hfits

theorem Hands.takesIn {hand : Option Handover} (htakes : TakesIn r r₁)
    (h : Hands start released hand r₁ r₂)
    (htakes' : TakesIn r₂ r') : Hands start released hand r r' := by
  refine ⟨fun hnone => ?_, ?_⟩
  · obtain ⟨hfiles, hdisk⟩ := h.idle hnone
    rw [htakes.sinks] at hfiles
    rw [htakes'.sinks, htakes'.disk]
    exact ⟨hfiles, hdisk.trans htakes.disk⟩
  · rw [htakes'.sinks, htakes'.disk]
    exact h.fits

/-- **Releasing what may be released hands its block to the files**, and what they got of it is
    stored if all goes well. -/
theorem Ledger.serve_offering (h : Ledger o input released r)
    (hstored : r.sinks.Stored start released r.disk) (hserve : r.releaseReady = .ok r') :
    Ledger o input (released ++ handed r.offering) r' ∧
    r'.sinks.Stored start (released ++ handed r.offering) r'.disk ∧
      Hands start released r.offering r r' := by
  have hserving := r.serving
  rw [hserve] at hserving
  cases hserving with
  | idle hnone =>
    have hnothing : r.offering = none := by
      have hpermit := r.granted_permit_le
      rw [offering, if_neg fun hgoes => by omega]
    rw [hnothing, handed, Option.elim_none, List.append_nil]
    exact ⟨h, hstored, (TakesIn.refl r).hands hstored⟩
  | served hsome hpermit hreckons hjournal hrelease hjournal' =>
    obtain ⟨hbusy, hle⟩ := granted_ready h.validated_le hsome
    have hpassing : (r.passing r.granted.permit).result = .ok () := by
      cases hrelease with
      | released hpassing _ _ _ _ _ => exact hpassing
    obtain ⟨rfl, hreleased⟩ := Ledger.release (h.relog hjournal) hbusy hsome hle hrelease
    have hstored' := hrelease.stored hstored hle
    have hoffering := offering_of_passing hreckons hsome hpassing
    have hblock : handed r.offering = r.ready.take (r.portion r.granted.permit).used := by
      rw [hoffering]
      exact block_eq hle
    rw [hblock]
    refine ⟨hreleased.relog hjournal', hstored', fun hnone => ?_, ?_⟩
    · rw [hoffering] at hnone
      cases hnone
    · rw [hblock]
      exact hstored'.fits

/-- The files of a release got its block, once the pass-through output has accepted it. -/
theorem Releasing.handed {permit : Nat} {result : Except Halt (Relay × Nat)}
    (h : r.Releasing permit result) (hstored : r.sinks.Stored start released r.disk)
    (hpassing : (r.passing permit).result = .ok ()) :
    (standing (result.map Prod.fst)).sinks.Fits start (released ++ r.block permit)
      (standing (result.map Prod.fst)).disk := by
  have hfits := (stored_storing hstored permit).1
  cases h with
  | notPassed hrefused _ _ _ => cases hpassing.symm.trans hrefused
  | notStored _ _ hstate _ =>
    rw [← hstate] at hfits
    exact hfits
  | overflowed _ _ _ hstate _ _ =>
    rw [← hstate] at hfits
    exact hfits
  | released _ _ hstate _ _ _ =>
    rw [← hstate] at hfits
    exact hfits

theorem serve_offering_error (hstored : r.sinks.Stored start released r.disk)
    (hserve : r.releaseReady = .error halt) : Hands start released r.offering r halt.relay := by
  have hserving := r.serving
  rw [hserve] at hserving
  cases hserving with
  | unreckoned e hnot =>
    have hnothing : r.offering = none := by rw [offering, if_neg fun hgoes => hnot hgoes.1]
    rw [hnothing]
    exact (TakesIn.refl r).hands hstored
  | @failed journal _ hreckons hsome hjournal hrelease =>
    rcases hpassing : (r.passing r.granted.permit).result with e | _
    · -- the pass-through output failed, so the files were not written to
      have hnothing : r.offering = none := by
        rw [offering, if_pos ⟨hreckons, hsome⟩, hpassing]
      have hidle : halt.relay.sinks.files = r.sinks.files ∧ halt.relay.disk = r.disk := by
        cases hrelease with
        | notPassed _ hsinks _ _ =>
          refine ⟨?_, rfl⟩
          rw [hsinks]
          exact Sinks.files_writePass _ _
        | notStored haccepted _ _ _ => cases hpassing.symm.trans haccepted
        | overflowed _ haccepted _ _ _ _ => cases hpassing.symm.trans haccepted
      rw [hnothing]
      refine ⟨fun _ => hidle, ?_⟩
      rw [Relay.handed, Option.elim_none, List.append_nil, hidle.2]
      exact hstored.fits.congr hidle.1
    · have hoffering := offering_of_passing hreckons hsome hpassing
      rw [hoffering]
      exact ⟨fun hnone => absurd hnone (Option.some_ne_none _),
        hrelease.handed hstored hpassing⟩
  | uncounted _ hreckons hsome hjournal hrelease _ =>
    have hpassing : (r.passing r.granted.permit).result = .ok () := by
      cases hrelease with
      | released hpassing _ _ _ _ _ => exact hpassing
    have hoffering := offering_of_passing hreckons hsome hpassing
    rw [hoffering]
    exact ⟨fun hnone => absurd hnone (Option.some_ne_none _),
        hrelease.handed hstored hpassing⟩

/-! ### Whole turns -/

theorem takesIn_vouched (hfilled : r.filled = .ok r₁) (hvalidate : r₁.validate = .ok r₂) :
    TakesIn r r₂ := by
  have htakes := takesIn_vouch hfilled
  rwa [hvalidate] at htakes

/-- **A turn hands its block to the files and nothing else**, and if it succeeds they have stored
    it. -/
theorem Ledger.turn_handing (h : Ledger o input released r)
    (hstored : r.sinks.Stored start released r.disk)
    (hbusy : r.isDone = false) (hturn : r.turn = .ok r') :
    Ledger o (input ++ r.arrival) (released ++ handed r.handing) r' ∧
      r'.sinks.Stored start (released ++ handed r.handing) r'.disk ∧
      Hands start released r.handing r r' := by
  obtain ⟨r₁, r₂, r₃, hfilled, hvalidate, hserve, htick⟩ := turn_ok hturn
  have htakes := takesIn_vouched hfilled hvalidate
  have htakes' := takesIn_tick r₃
  rw [htick] at htakes'
  obtain ⟨hserved, hstored', hhands⟩ :=
    ((h.arrive hbusy hfilled).vouch hvalidate).serve_offering (htakes.stored hstored) hserve
  rw [handing_eq hfilled hvalidate]
  exact ⟨hserved.tick htick, htakes'.stored hstored', hhands.takesIn htakes htakes'⟩

theorem Ledger.turn_error_handing (h : Ledger o input released r)
    (hstored : r.sinks.Stored start released r.disk)
    (hbusy : r.isDone = false) (hturn : r.turn = .error halt) :
    Hands start released r.handing r halt.relay := by
  rcases Relay.turn_error hturn with hfilled |
    ⟨r₁, hfilled, hvalidate | ⟨r₂, hvalidate, hserve | ⟨r₃, hserve, htick⟩⟩⟩
  · have htakes := takesIn_filled r
    rw [hfilled] at htakes
    have hnothing : r.handing = none := by rw [handing, hfilled, Except.bind]
    rw [hnothing]
    exact htakes.hands hstored
  · have htakes := takesIn_vouch hfilled
    rw [hvalidate] at htakes
    have hnothing : r.handing = none := by rw [handing, hfilled, Except.bind, hvalidate]
    rw [hnothing]
    exact htakes.hands hstored
  · have htakes := takesIn_vouched hfilled hvalidate
    rw [handing_eq hfilled hvalidate]
    exact (serve_offering_error (htakes.stored hstored) hserve).takesIn htakes (.refl _)
  · have htakes := takesIn_vouched hfilled hvalidate
    have htakes' := takesIn_tick r₃
    rw [htick] at htakes'
    obtain ⟨_, _, hhands⟩ :=
      ((h.arrive hbusy hfilled).vouch hvalidate).serve_offering (htakes.stored hstored) hserve
    rw [handing_eq hfilled hvalidate]
    exact hhands.takesIn htakes htakes'

/-- What a turn hands over is taken from payload that the input contains. -/
theorem Ledger.block_handing (h : Ledger o input released r) (hbusy : r.isDone = false)
    (hhanding : r.handing = some hand) :
    hand.granted ≠ [] ∧ o.contained (input ++ r.arrival) ≠ [] ∧
      (hand.block = [] → o.writeFraming ∧ ∃ k, 0 < k ∧ k < marker.length ∧
        hand.granted = marker.take k) := by
  rcases hfilled : r.filled with halt | r₁
  · rw [handing, hfilled, Except.bind] at hhanding
    cases hhanding
  · rcases hvalidate : r₁.validate with halt | r₂
    · rw [handing, hfilled, Except.bind, hvalidate] at hhanding
      cases hhanding
    · rw [handing_eq hfilled hvalidate] at hhanding
      have hvouched := (h.arrive hbusy hfilled).vouch hvalidate
      obtain ⟨hgranted, hprefix, hblock⟩ := hvouched.block_offering hhanding
      refine ⟨hgranted, fun hnone => ?_, hblock⟩
      rw [← hvouched.contained_eq, List.append_eq_nil_iff] at hnone
      rw [hnone.2, List.prefix_nil] at hprefix
      exact hgranted hprefix

/-! ### Whole runs -/

/-- **A block that a turn of a run hands to the files.** -/
def HandsOver (options : Options) (source : Source) (sinks : Sinks) (disk : Disk)
    (machine : Machine) (hand : Handover) : Prop :=
  ∃ first before mid, Starts options source sinks disk machine first ∧ Reaches first before mid ∧
    mid.isDone = false ∧
    mid.handing = some hand

/-- The files of a relay are as they were, or a block was handed to them; and if all blocks were
    empty, so is what they hold. -/
structure Spares (handsOver : Handover → Prop) (start : Disk) (r : Relay) : Prop where
  idle : r.sinks.Unopened start r.disk ∨ ∃ hand, handsOver hand
  fits : (∀ hand, handsOver hand → hand.block = []) → r.sinks.Fits start [] r.disk

structure Spared (handsOver : Handover → Prop) (start now : Disk) : Prop where
  idle : now = start ∨ ∃ hand, handsOver hand
  keeps : (∀ hand, handsOver hand → hand.block = []) → start.Keeps [] now

variable {handsOver : Handover → Prop}

theorem spares_of_unopened (h : r.sinks.Unopened start r.disk) : Spares handsOver start r :=
  ⟨Or.inl h, fun _ => Sinks.Stored.fits (Or.inl ⟨h.1, h.2, rfl⟩)⟩

theorem Spares.giveUp (h : Spares handsOver start r) (result : Except RelayError Report) :
    Spared handsOver start (r.giveUp result).disk :=
  ⟨h.idle.imp_left Sinks.Unopened.release, fun hempty => (h.fits hempty).release⟩

theorem Spares.congr (h : Spares handsOver start r) (hfiles : r'.sinks.files = r.sinks.files)
    (hdisk : r'.disk = r.disk) :
    Spares handsOver start r' := by
  refine ⟨h.idle.imp_left fun hunopened => ?_, fun hempty => ?_⟩
  · rw [hdisk]
    exact hunopened.congr hfiles
  · rw [hdisk]
    exact (h.fits hempty).congr hfiles

theorem Spares.hands {hand : Option Handover} (h : Spares handsOver start r)
    (hhands : Hands start released hand r r') (hover : ∀ hand', hand = some hand' → handsOver hand')
    (hreleased : released = [] ∨ ∃ hand, handsOver hand ∧ hand.block ≠ []) :
    Spares handsOver start r' := by
  rcases hand with _ | hand
  · obtain ⟨hfiles, hdisk⟩ := hhands.idle rfl
    exact h.congr hfiles hdisk
  · refine ⟨Or.inr ⟨hand, hover hand rfl⟩, fun hempty => ?_⟩
    have hnone : released = [] :=
      hreleased.resolve_right fun ⟨other, hother, hblock⟩ => hblock (hempty other hother)
    have hfits := hhands.fits
    rwa [hnone, handed, Option.elim_some, hempty hand (hover hand rfl)] at hfits

/-- **Neither does closing touch a file that nothing was handed to.** -/
theorem Spares.finish (h : Spares handsOver start r) :
    Spares handsOver start (standing r.finish) := by
  have hfiles : (r.sinks.writePass r.finale).state.files = r.sinks.files :=
    Sinks.files_writePass _ _
  have hclosed {after : Relay}
      (hstate : (after.sinks,
        after.disk) = ((r.sinks.writePass r.finale).state.close r.disk).state) :
      Spares handsOver start after := by
    obtain ⟨hsinks, hdisk⟩ := Prod.mk.inj hstate
    refine ⟨h.idle.imp_left fun hunopened => ?_, fun hempty => ?_⟩
    · rw [hsinks, hdisk]
      exact (hunopened.congr hfiles).close
    · rw [hsinks, hdisk]
      exact ((h.fits hempty).congr hfiles).close
  have hclosing := r.closing
  generalize r.finish = result at hclosing ⊢
  cases hclosing with
  | refused _ _ _ _ => exact h.congr hfiles rfl
  | notClosed _ _ hstate _ => exact hclosed hstate
  | closed _ _ hstate _ => exact hclosed hstate

/-- A relay between two turns: as the ledger tells; no file is touched before the input contains
    payload; and what was released was handed over in blocks. -/
structure Sparing (o : Options) (handsOver : Handover → Prop) (start : Disk)
    (input released : Bytes) (r : Relay) :
    Prop where
  ledger : Ledger o input released r
  stored : r.sinks.Stored start released r.disk
  spares : Spares handsOver start r
  contained : r.sinks.Unopened start r.disk ∨ o.contained input ≠ []
  released : released = [] ∨ ∃ hand, handsOver hand ∧ hand.block ≠ []

/-- **A turn that succeeds leaves it so**, if its block counts among those handed over. -/
theorem Sparing.turn (h : Sparing o handsOver start input released r) (hbusy : r.isDone = false)
    (hover : ∀ hand, r.handing = some hand → handsOver hand) (hturn : r.turn = .ok r') :
    Sparing o handsOver start (input ++ r.arrival) (released ++ handed r.handing) r' := by
  obtain ⟨hledger, hstored, hhands⟩ := h.ledger.turn_handing h.stored hbusy hturn
  refine ⟨hledger, hstored, h.spares.hands hhands hover h.released, ?_, ?_⟩
  · rcases hhanding : r.handing with _ | hand
    · -- what the input contains is never taken back
      obtain ⟨hfiles, hdisk⟩ := hhands.idle hhanding
      rw [hdisk]
      refine h.contained.imp (·.congr hfiles) fun hsome hnone => hsome ?_
      exact List.prefix_nil.1 (hnone ▸ o.contained_append input r.arrival)
    · exact Or.inr (h.ledger.block_handing hbusy hhanding).2.1
  · rcases hhanding : r.handing with _ | hand
    · rw [handed, Option.elim_none, List.append_nil]
      exact h.released
    · by_cases hblock : hand.block = []
      · rw [handed, Option.elim_some, hblock, List.append_nil]
        exact h.released
      · exact Or.inr ⟨hand, hover hand hhanding, hblock⟩

/-- **Every relay that a run reaches has spared the files.** -/
theorem Reaches.sparing (hreaches : Reaches first input r)
    (hstarts : Starts options source sinks disk machine first)
    (hfiles : ∀ file ∈ sinks.files, file.state = .unopened) :
    ∃ released, Sparing options.settled
      (HandsOver options source sinks disk machine) disk input released r := by
  induction hreaches with
  | refl =>
    obtain ⟨hsame, hdisk⟩ := hstarts.files
    have hunopened : first.sinks.Unopened disk first.disk := ⟨hsame ▸ hfiles, hdisk⟩
    have hstored : first.sinks.Stored disk [] first.disk := Or.inl ⟨hunopened.1, hunopened.2, rfl⟩
    exact ⟨[], hstarts.ledger, hstored, spares_of_unopened hunopened, Or.inl hunopened, Or.inl rfl⟩
  | turn hbefore hbusy hturn ih =>
    obtain ⟨released, hsparing⟩ := ih
    exact ⟨_, hsparing.turn hbusy (fun hand hhanding =>
      ⟨first, _, _, hstarts, hbefore, hbusy, hhanding⟩) hturn⟩

theorem outcome_disk (result : Except Halt Relay) (report : Except RelayError Report) :
    (outcome result).disk = ((standing result).giveUp report).disk := by
  rcases result with halt | r <;> rfl

theorem outcome_finish_ok {report : Report} (h : (outcome r.finish).result = .ok report) :
    report.bytesReleased = r.bytesReleased := by
  have hclosing := r.closing
  generalize r.finish = result at hclosing h
  cases hclosing with
  | refused _ _ _ _ => cases h
  | notClosed _ _ _ _ => cases h
  | closed _ _ _ _ =>
    cases h
    rfl

/-- **A relay that is done and has released nothing has touched nothing**, for it would have had
    payload to release. -/
theorem Sparing.finish_disk (h : Sparing o handsOver start input released r) (hdone : r.isDone)
    (hnone : r.bytesReleased = 0) : (outcome r.finish).disk = start := by
  rw [h.ledger.bytesReleased, List.length_eq_zero_iff] at hnone
  have hcontained : o.contained input = [] := by
    rw [← h.ledger.contained_eq, ready_of_isDone hdone, List.append_nil, hnone]
  have hunopened := h.contained.resolve_right (absurd hcontained)
  have hspares : Spares (fun _ => False) start (standing r.finish) :=
    (spares_of_unopened hunopened).finish
  rw [outcome_disk r.finish (.ok r.report)]
  exact (hspares.giveUp _).idle.resolve_right fun ⟨_, hnever⟩ => hnever

/-- **A block is empty only if it was taken from part of the marker**, and only where the
    pass-through output is framed. -/
theorem HandsOver.withheld (h : HandsOver options source sinks disk machine hand)
    (hfiles : ∀ file ∈ sinks.files, file.state = .unopened) (hblock : hand.block = []) :
    options.passThrough ∧ options.writeFraming ∧ ∃ k, 0 < k ∧ k < marker.length ∧
      hand.granted = marker.take k := by
  obtain ⟨first, before, mid, hstarts, hreaches, hbusy, hhanding⟩ := h
  obtain ⟨released, hsparing⟩ := hreaches.sparing hstarts hfiles
  obtain ⟨hframing, hpart⟩ := (hsparing.ledger.block_handing hbusy hhanding).2.2 hblock
  rw [Options.settled, Bool.and_eq_true] at hframing
  exact ⟨hframing.2, hframing.1, hpart⟩

theorem spared_of_eq {now : Disk} (h : now = start) : Spared handsOver start now :=
  ⟨Or.inl h, fun _ => h ▸ start.keeps_start []⟩

theorem run_spared (hfiles : ∀ file ∈ sinks.files, file.state = .unopened) {result : Outcome}
    (hrun : run options source sinks disk machine = some result) :
    Spared (HandsOver options source sinks disk machine) disk result.disk ∧
      ∀ report, result.result = .ok report → report.bytesReleased = 0 → result.disk = disk := by
  cases course hrun with
  | unprepared _ hresult =>
    subst hresult
    exact ⟨spared_of_eq rfl, fun _ herror => by cases herror⟩
  | @unopened r halt hprepare hbegin hresult =>
    subst hresult
    obtain ⟨hsame, hdisk⟩ := begin_error_frame hprepare hbegin
    have hunopened : halt.relay.sinks.Unopened disk halt.relay.disk := ⟨hsame ▸ hfiles, hdisk⟩
    exact ⟨(spares_of_unopened hunopened).giveUp _, fun _ herror => by cases herror⟩
  | @halted first mid before halt hstarts hreaches hbusy hturn _ hresult =>
    subst hresult
    obtain ⟨released, hsparing⟩ := hreaches.sparing hstarts hfiles
    have hhands := hsparing.ledger.turn_error_handing hsparing.stored hbusy hturn
    have hspares := hsparing.spares.hands hhands
      (fun _ hhanding => ⟨first, before, mid, hstarts, hreaches, hbusy, hhanding⟩)
      hsparing.released
    exact ⟨hspares.giveUp _, fun _ herror => by cases herror⟩
  | @closed first last hstarts hreaches hdone hresult =>
    subst hresult
    obtain ⟨released, hsparing⟩ := hreaches.sparing hstarts hfiles
    constructor
    · rw [outcome_disk last.finish (.ok last.report)]
      exact hsparing.spares.finish.giveUp _
    · intro report hreport hnone
      exact hsparing.finish_disk hdone (outcome_finish_ok hreport ▸ hnone)

/-- **Files are touched for blocks that are handed to them.** In every run, with any fault in any
    place, the disk is as it was before unless a turn handed a block to the files. Only where the
    pass-through output is framed can that block be empty, and what was withheld is part of the
    marker then. If all blocks were empty, files that were opened are empty and no other file has
    changed. And a run that succeeds and has released nothing leaves the disk as it was. -/
theorem run_touches_files_for_blocks (hfiles : ∀ file ∈ sinks.files, file.state = .unopened)
    {result : Outcome} (hrun : run options source sinks disk machine = some result) :
    (result.disk = disk ∨ ∃ hand, HandsOver options source sinks disk machine hand) ∧
      (∀ hand, HandsOver options source sinks disk machine hand → hand.block = [] →
        options.passThrough ∧ options.writeFraming ∧
          ∃ k, 0 < k ∧ k < marker.length ∧ hand.granted = marker.take k) ∧
      ((∀ hand, HandsOver options source sinks disk machine hand → hand.block = []) →
        disk.Keeps [] result.disk) ∧
      ∀ report, result.result = .ok report → report.bytesReleased = 0 → result.disk = disk := by
  obtain ⟨⟨hidle, hkeeps⟩, hsuccess⟩ := run_spared hfiles hrun
  exact ⟨hidle, fun _ h hblock => h.withheld hfiles hblock, hkeeps, hsuccess⟩

/-- A framed run over an empty input succeeds and leaves the file there as it was. -/
theorem run_touches_files_for_blocks_of_no_input :
    ∃ outcome,
      run { passThrough := true, writeFraming := true } (.feed ⟨[], []⟩ [])
          ⟨some .unlimited, [FileSink.ofPath "out"], false⟩
          (Disk.ofFiles [("out", [107, 101, 101, 112])]) ⟨1048576, []⟩ = some outcome ∧
      (∃ report, outcome.result = .ok report) ∧
      outcome.disk = Disk.ofFiles [("out", [107, 101, 101, 112])] := by
  have hcourse :
      (run { passThrough := true, writeFraming := true } (.feed ⟨[], []⟩ [])
        ⟨some .unlimited, [FileSink.ofPath "out"], false⟩
        (Disk.ofFiles [("out", [107, 101, 101, 112])]) ⟨1048576, []⟩).map (·.result) =
      some (.ok ⟨0, 0, 0, none⟩) := by
    decide +kernel
  obtain ⟨outcome, hrun, hresult⟩ := Option.map_eq_some_iff.1 hcourse
  have hdisk := (run_touches_files_for_blocks (by decide) hrun).2.2.2 _ hresult rfl
  exact ⟨outcome, hrun, ⟨_, hresult⟩, hdisk⟩

/-- Where the second turn of a run fails, it has taken no other turns than these. -/
theorem Reaches.of_halts (h : Reaches first before mid) (hturn : first.turn = .ok second)
    (hhalts : second.turn = .error halt) : mid = first ∨ mid = second := by
  induction h with
  | refl => exact Or.inl rfl
  | turn _ _ hnext ih =>
    rcases ih with rfl | rfl
    · exact Or.inr (Except.ok.inj (hnext.symm.trans hturn))
    · rw [hhalts] at hnext
      cases hnext

/-- **The first byte of a marker is enough to empty a file**: it is withheld, the next read fails,
    and no block had anything in it. -/
theorem exists_file_emptied_for_nothing :
    ∃ outcome,
      run { passThrough := true, writeFraming := true }
          (.feed ⟨[], [.bytes [110], .fail (.other "x")]⟩ [])
          ⟨some .unlimited, [FileSink.ofPath "out"], false⟩
          (Disk.ofFiles [("out", [107, 101, 101, 112])]) ⟨1048576, []⟩ = some outcome ∧
      outcome.result = .error (.read (.other "x")) ∧
      (∀ hand,
        HandsOver { passThrough := true, writeFraming := true }
          (.feed ⟨[], [.bytes [110], .fail (.other "x")]⟩ [])
          ⟨some .unlimited, [FileSink.ofPath "out"], false⟩
          (Disk.ofFiles [("out", [107, 101, 101, 112])]) ⟨1048576, []⟩ hand → hand.block = []) ∧
      outcome.disk.contents "out" = [] := by
  have hcourse :
      (run { passThrough := true, writeFraming := true }
        (.feed ⟨[], [.bytes [110], .fail (.other "x")]⟩ [])
        ⟨some .unlimited, [FileSink.ofPath "out"], false⟩
        (Disk.ofFiles [("out", [107, 101, 101, 112])]) ⟨1048576, []⟩).map
        (fun o => (o.result, o.disk.contents "out")) =
      some (.error (.read (.other "x")), []) := by
    decide +kernel
  -- the first turn hands over an empty block, and the second fails without one
  have hturns :
      (prepare { passThrough := true, writeFraming := true }
        (.feed ⟨[], [.bytes [110], .fail (.other "x")]⟩ [])
        ⟨some .unlimited, [FileSink.ofPath "out"], false⟩
        (Disk.ofFiles [("out", [107, 101, 101, 112])]) ⟨1048576, []⟩).toOption.any fun r =>
        r.begin.toOption.any fun first =>
          first.handing == some ⟨[110], []⟩ && first.turn.toOption.any fun second =>
            second.handing == none && second.turn.toOption.isNone := by
    decide +kernel
  obtain ⟨outcome, hrun, houtcome⟩ := Option.map_eq_some_iff.1 hcourse
  obtain ⟨hresult, hcontents⟩ := Prod.mk.inj houtcome
  refine ⟨outcome, hrun, hresult, fun hand hhands => ?_, hcontents⟩
  obtain ⟨first, before, mid, ⟨r, hprepare, hbegin⟩, hreaches, _, hhanding⟩ := hhands
  rw [hprepare, Except.toOption, Option.any_some, hbegin, Except.toOption, Option.any_some,
    Bool.and_eq_true] at hturns
  obtain ⟨hfirst, hrest⟩ := hturns
  obtain ⟨second, hturn, hlast⟩ := exists_ok hrest
  obtain ⟨hsecond, hhalts⟩ := Bool.and_eq_true_iff.1 hlast
  rcases hhalt : second.turn with halt | third
  · rcases hreaches.of_halts hturn hhalt with rfl | rfl
    · cases hhanding.symm.trans (beq_iff_eq.1 hfirst)
      rfl
    · cases hhanding.symm.trans (beq_iff_eq.1 hsecond)
  · rw [hhalt] at hhalts
    cases hhalts

end Relay

end StreamRelay
