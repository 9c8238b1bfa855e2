/-
  StreamRelay/Proofs/Relay/Bookkeeping.lean
  =========================================
  **The books of the buffer balance, whatever is permitted.**

  In front of the buffer stand the bytes that the decoder has vouched for, behind them those that it
  holds back. A turn moves the boundary twice: vouching takes escapes out of what is behind it, and
  releasing eats what is in front of it, up to some permit. Nothing of this depends on who gives the
  permits or when, so turns are taken here under any permits for what may be released (`Relays`).
  The turns of a relay are among them (`Reaches.relays`).

  Main statement: what was released and what stands in front of the boundary is what the decoder has
  confirmed of the input so far, and what stands behind it is what it holds back (`books_balance`).
-/
import StreamRelay.Proofs.Framing.Incremental
import StreamRelay.Proofs.Relay.Run

namespace StreamRelay

open Framing

namespace Relay

variable {o : Options} {first r r' r₁ r₂ r₃ : Relay} {input released block : Bytes} {permit n : Nat}

/-! ### Turns under any permits -/

/-- A relay at another time: nothing but its clock, its limiter and its reports has gone on. -/
inductive Later (r : Relay) : Relay → Prop where
  | mk {clock : Duration} {instants : List Duration} {limiter : Option Limiter}
      {progress : Progress} {journal : Journal} (hjournal : r.journal.Extends journal []) :
      Later r { r with clock, instants, limiter, progress, journal }

theorem Later.trans (h : Later r r₁) (h' : Later r₁ r₂) : Later r r₂ := by
  cases h with
  | mk hjournal =>
    cases h' with
    | mk hjournal' => exact .mk (hjournal.quiet hjournal')

theorem Later.validated_eq (h : Later r r') : r'.validated = r.validated := by
  cases h
  rfl

theorem Later.releasable_eq (h : Later r r') : r'.releasable = r.releasable := by
  cases h
  rfl

/-- How a relay goes on under a permit. If nothing is permitted, nothing is released; otherwise a
    release of so many bytes succeeds. -/
inductive Permitting (r : Relay) : Nat → Bytes → Relay → Prop where
  | idle {r' : Relay} (hlater : Later r r') : Permitting r 0 [] r'
  | served {permit n : Nat} {r₁ r₂ r' : Relay} (hsome : 0 < permit) (hlater : Later r r₁)
      (hrelease : r₁.Releasing permit (.ok (r₂, n))) (hlater' : Later r₂ r') :
      Permitting r permit (r₁.block permit) r'

/-- Turns lead from one relay to another, each under some permit for what may be released. They read
    `input` and write `released` to the sinks. -/
inductive Relays (first : Relay) : (input released : Bytes) → Relay → Prop where
  | start : Relays first [] [] first
  | turn {input released block : Bytes} {permit : Nat} {r r₁ r₂ r' : Relay}
      (h : Relays first input released r)
      (hbusy : r.isDone = false) (hfilled : r.filled = .ok r₁) (hvalidate : r₁.validate = .ok r₂)
      (hpermit : permit ≤ r₂.releasable) (hserved : Permitting r₂ permit block r') :
      Relays first (input ++ r.arrival) (released ++ block) r'

/-- A relay that released what it was granted went on under a permit for it. -/
theorem permitting_of_releaseReady (h : r.releaseReady = .ok r') :
    ∃ permit ≤ r.releasable, ∃ block, Permitting r permit block r' := by
  have hserving := r.serving
  rw [h] at hserving
  cases hserving with
  | idle _ => exact ⟨0, Nat.zero_le _, [], .idle (.mk (.refl _))⟩
  | served hsome hpermit _ hjournal hrelease hjournal' =>
    exact ⟨_, hpermit, _, .served hsome (.mk hjournal) hrelease (.mk hjournal')⟩

theorem Permitting.later (h : Permitting r permit block r') (hlater : Later r' r₁) :
    Permitting r permit block r₁ := by
  cases h with
  | idle hlater₀ => exact .idle (hlater₀.trans hlater)
  | served hsome hlater₀ hrelease hlater' =>
    exact .served hsome hlater₀ hrelease (hlater'.trans hlater)

theorem later_of_tick (h : r.tick = .ok r') : Later r r' := by
  obtain ⟨_, _, _, rfl, hjournal⟩ := tick_ok h
  exact .mk hjournal

/-- **Every relay that is reached is reached under permits.** -/
theorem Reaches.relays (h : Reaches first input r) : ∃ released, Relays first input released r := by
  induction h with
  | refl => exact ⟨[], .start⟩
  | turn _ hbusy hturn ih =>
    obtain ⟨released, hrelays⟩ := ih
    obtain ⟨r₁, r₂, r₃, hfilled, hvalidate, hserve, htick⟩ := turn_ok hturn
    obtain ⟨permit, hpermit, block, hserved⟩ := permitting_of_releaseReady hserve
    exact ⟨_, hrelays.turn hbusy hfilled hvalidate hpermit (hserved.later (later_of_tick htick))⟩

/-! ### The ledger under any permits -/

theorem Ledger.later (h : Ledger o input released r) (hlater : Later r r') :
    Ledger o input released r' := by
  cases hlater with
  | mk hjournal => exact h.relog hjournal

/-- **What is released under a permit is added to what was released.** -/
theorem Ledger.permitting (h : Ledger o input released r) (hpermit : permit ≤ r.releasable)
    (hserved : Permitting r permit block r') : Ledger o input (released ++ block) r' := by
  cases hserved with
  | idle hlater =>
    rw [List.append_nil]
    exact h.later hlater
  | @served _ n r₁ r₂ _ hsome hlater hrelease hlater' =>
    have hledger := h.later hlater
    rw [← hlater.releasable_eq] at hpermit
    have hready := Nat.le_trans hpermit (releasable_le hledger.validated_le)
    have hbusy := isDone_of_releasable hledger.validated_le (Nat.lt_of_lt_of_le hsome hpermit)
    obtain ⟨rfl, hreleased⟩ := hledger.release hbusy hsome hready hrelease
    rw [block_eq hready]
    exact hreleased.later hlater'

/-- **The ledger of every relay that is reached under permits.** -/
theorem Relays.ledger (h : Relays first input released r) (hstart : Ledger o [] [] first) :
    Ledger o input released r := by
  induction h with
  | start => exact hstart
  | turn _ hbusy hfilled hvalidate hpermit hserved ih =>
    exact ((ih.arrive hbusy hfilled).vouch hvalidate).permitting hpermit hserved

/-! ### Both sides of the boundary -/

/-- With a decoder the boundary is where it says: what was released and what is in front of it was
    confirmed by calls on the input, and what is behind it is what they left. -/
theorem Ledger.calls (h : Ledger o input released r) (hframing : o.readFraming) :
    ∃ decoder, r.decoder = some decoder ∧
      Calls input (released ++ r.buffer.view.take r.validated)
        (r.buffer.view.drop r.validated) decoder := by
  obtain ⟨decoder, hdecoder⟩ := Option.isSome_iff_exists.1 (h.decoder.trans hframing)
  have hvouched := h.vouched
  rw [ready, behind, hdecoder] at hvouched
  refine ⟨decoder, hdecoder, ?_⟩
  dsimp only at hvouched
  generalize released ++ r.buffer.view.take r.validated = confirmed at hvouched ⊢
  generalize r.buffer.view.drop r.validated = held at hvouched ⊢
  cases hvouched with
  | framed hlive => exact Calls.of_live hlive

/-- Without one all that was read was released or is in the buffer. -/
theorem Ledger.bytesRead_eq (h : Ledger o input released r) (hplain : o.readFraming = false) :
    r.bytesRead = r.bytesReleased + r.buffer.length := by
  have hnone : r.decoder = none := Option.not_isSome_iff_eq_none.1 (by simp [h.decoder, hplain])
  have hvouched := h.vouched.confirmed_eq (by rw [hnone]; rfl)
  have hready : r.ready = r.buffer.view := by rw [ready, hnone]
  rw [h.bytesRead, ← hvouched, hready, List.length_append, ReadBuffer.length_view, h.bytesReleased]

theorem Ledger.behind_le (h : Ledger o input released r) (hframing : o.readFraming) :
    r.buffer.length ≤ r.validated + 10 := by
  obtain ⟨decoder, hdecoder⟩ := Option.isSome_iff_exists.1 (h.decoder.trans hframing)
  have hheld : r.behind.length ≤ 10 := h.vouched.length_held_le
  rw [behind, hdecoder, List.length_drop, ReadBuffer.length_view] at hheld
  omega

theorem releasable_le_validated (hdecoder : r.decoder.isSome) : r.releasable ≤ r.validated := by
  obtain ⟨decoder, hdecoder⟩ := Option.isSome_iff_exists.1 hdecoder
  unfold releasable
  rw [hdecoder]
  split
  · exact Nat.zero_le _
  · exact Nat.le_refl _

/-- A release never takes more than is in front of the boundary. -/
theorem validated_add_of_release (hpermit : permit ≤ r.validated)
    (h : r.release permit = .ok (r', n)) :
    r'.validated + n = r.validated := by
  have hreleasing := r.releasing permit
  rw [h] at hreleasing
  cases hreleasing with
  | released _ _ _ _ => exact Nat.sub_add_cancel (Nat.le_trans (r.portion_used_le permit) hpermit)

/-! ### The books -/

/-- **A boundary in its place.** It lies within the buffer. What was released and the bytes in front
    of it are what the decoder has confirmed of the input so far, and the bytes behind it are what
    the decoder has left. -/
structure Balanced (input released : Bytes) (r : Relay) : Prop where
  within : r.validated ≤ r.buffer.length
  confirmed : ∃ decoder, r.decoder = some decoder ∧
    Calls input (released ++ r.buffer.view.take r.validated)
      (r.buffer.view.drop r.validated) decoder ∧
    Settles input (released ++ r.buffer.view.take r.validated)
      (r.buffer.view.drop r.validated) decoder

/-- **A boundary that a release keeps to**, as vouching leaves it. At most ten bytes are behind it,
    what the relay is granted is in front of it, and a release under any permit for bytes in front
    of it moves it by just what was released. -/
structure Guarded (r : Relay) : Prop where
  within : r.validated ≤ r.buffer.length
  behind : r.buffer.length ≤ r.validated + 10
  granted : r.granted.permit ≤ r.validated
  moved : ∀ permit ≤ r.validated, ∀ r₁, Later r r₁ → ∀ r' n,
    r₁.release permit = .ok (r', n) → r'.validated + n = r.validated

theorem Ledger.balanced (h : Ledger o input released r) (hframing : o.readFraming) :
    Balanced input released r := by
  obtain ⟨decoder, hdecoder, hcalls⟩ := h.calls hframing
  obtain ⟨hlive, hstands, hleft, hsafe⟩ := hcalls.eq_run
  have hsettles := settles_run hlive
  rw [← hstands, ← hleft, ← hsafe] at hsettles
  exact ⟨h.validated_le, decoder, hdecoder, hcalls, hsettles⟩

theorem Ledger.guarded (h : Ledger o input released r) (hframing : o.readFraming) : Guarded r where
  within := h.validated_le
  behind := h.behind_le hframing
  granted := Nat.le_trans r.granted_permit_le (releasable_le_validated (h.decoder.trans hframing))
  moved _ hpermit _ hlater _ _ hrelease := by
    rw [← hlater.validated_eq] at hpermit ⊢
    exact validated_add_of_release hpermit hrelease

variable {options : Options} {source : Source} {sinks : Sinks} {disk : Disk} {machine : Machine}

/-- **The books of the buffer balance.** Every relay that a run reaches between two turns is reached
    under permits for what may be released. And whatever the permits, of a relay that is so reached
    the counts are right; with a decoder the boundary is in its place, and in the next turn, if it
    gets past the decoder, the release keeps to it; without one all that was read was released or is
    in the buffer. -/
theorem books_balance (hstarts : Starts options source sinks disk machine first) :
    (∀ input r, Reaches first input r → ∃ released, Relays first input released r) ∧
      ∀ input released r, Relays first input released r →
        (r.bytesRead = input.length ∧ r.bytesReleased = released.length) ∧
          (options.readFraming → Balanced input released r ∧
            ∀ r₁ r₂, r.isDone = false → r.filled = .ok r₁ → r₁.validate = .ok r₂ → Guarded r₂) ∧
          (options.readFraming = false → r.bytesRead = r.bytesReleased + r.buffer.length) := by
  refine ⟨fun _ _ => Reaches.relays, fun input released r hrelays => ?_⟩
  have hledger := hrelays.ledger hstarts.ledger
  refine ⟨⟨hledger.bytesRead, hledger.bytesReleased⟩,
    fun hframing => ⟨hledger.balanced hframing, ?_⟩, hledger.bytesRead_eq⟩
  intro r₁ r₂ hbusy hfilled hvalidate
  exact ((hledger.arrive hbusy hfilled).vouch hvalidate).guarded hframing

/-- A turn under a ceiling of 20 bytes a second, over a framed input that is cut within a marker: of
    four bytes of payload two are released, two are in front of the boundary, and the seven of the
    marker behind it. -/
theorem books_balance_of_cut_marker :
    ∃ first r released,
      Starts { readFraming := true, throttle := 20 }
        (.feed ⟨[], [.bytes (Tag.start.sequence ++ [0x61, 0x62, 0x63, 0x64] ++ marker.take 7)]⟩ [])
        ⟨none, [], false⟩ (Disk.ofFiles []) ⟨1048576, []⟩ first ∧
      Relays first (Tag.start.sequence ++ [0x61, 0x62, 0x63, 0x64] ++ marker.take 7) released r ∧
      r.validated = 2 ∧ r.buffer.view = [0x63, 0x64] ++ marker.take 7 ∧ released.length = 2 ∧
      Balanced (Tag.start.sequence ++ [0x61, 0x62, 0x63, 0x64] ++ marker.take 7) released r := by
  have hcourse :
      (prepare { readFraming := true, throttle := 20 }
        (.feed ⟨[], [.bytes (Tag.start.sequence ++ [0x61, 0x62, 0x63, 0x64] ++ marker.take 7)]⟩ [])
        ⟨none, [], false⟩ (Disk.ofFiles []) ⟨1048576, []⟩).toOption.any fun r =>
        r.begin.toOption.any fun first => first.turn.toOption.any fun second =>
          !first.isDone && second.validated == 2 &&
          second.buffer.view == [0x63, 0x64] ++ marker.take 7 && second.bytesReleased == 2 &&
          first.arrival == Tag.start.sequence ++ [0x61, 0x62, 0x63, 0x64] ++ marker.take 7 := by
    decide +kernel
  obtain ⟨r, hprepare, hcourse⟩ := exists_ok hcourse
  obtain ⟨first, hbegin, hcourse⟩ := exists_ok hcourse
  obtain ⟨second, hturn, hcourse⟩ := exists_ok hcourse
  simp only [Bool.and_eq_true, Bool.not_eq_true', beq_iff_eq] at hcourse
  obtain ⟨⟨⟨⟨hbusy, hvalidated⟩, hview⟩, hcount⟩, harrival⟩ := hcourse
  have hstarts : Starts { readFraming := true, throttle := 20 }
      (.feed ⟨[], [.bytes (Tag.start.sequence ++ [0x61, 0x62, 0x63, 0x64] ++ marker.take 7)]⟩ [])
      ⟨none, [], false⟩ (Disk.ofFiles []) ⟨1048576, []⟩ first := ⟨r, hprepare, hbegin⟩
  have hreaches := Reaches.refl.turn hbusy hturn
  rw [List.nil_append, harrival] at hreaches
  obtain ⟨hpermits, hbooks⟩ := books_balance hstarts
  obtain ⟨released, hrelays⟩ := hpermits _ _ hreaches
  obtain ⟨⟨_, hreleased⟩, hframed, _⟩ := hbooks _ _ _ hrelays
  exact ⟨first, second, released, hstarts, hrelays, hvalidated, hview, hreleased.symm.trans hcount,
    (hframed rfl).1⟩

end Relay

end StreamRelay
