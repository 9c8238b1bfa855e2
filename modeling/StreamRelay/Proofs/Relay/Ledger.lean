/-
  StreamRelay/Proofs/Relay/Ledger.lean
  ====================================
  **What a relay at work has read, released and passed on.**

  A `Ledger` sets the state of a relay against the bytes that its turns read and those that they
  released. Between two turns it says that what was released and what is ready make up the confirmed
  payload of the input, that the counts are right, and that the pass-through output accepted exactly
  the wire form of what was released.

  Main statements: a turn that succeeds carries the ledger on (`Ledger.turn`), and one that fails
  has passed on no more than the wire form of confirmed payload (`Ledger.turn_error`).
-/
import StreamRelay.Proofs.Relay.Turn
import StreamRelay.Proofs.Relay.Vouching

namespace StreamRelay

open Framing

/-- The bytes that the pass-through output has accepted once a payload is released: the start escape
    too if it is framed, and none if there is no such output. -/
def Options.wire (o : Options) (payload : Bytes) : Bytes :=
  if o.passThrough then if o.writeFraming then Tag.start.sequence ++ stuff payload
    else payload else []

def Options.body (o : Options) (payload : Bytes) : Bytes :=
  if o.writeFraming then stuff payload else payload

/-- At a seam the wire form grows by what is released. -/
theorem Options.wire_append {o : Options} {released ready part : Bytes}
    (hseam : o.writeFraming → Seam released ready) (hpart : part <+: ready) :
    o.wire (released ++ part) = o.wire released ++ if o.passThrough then o.body part else [] := by
  unfold wire body
  split
  · by_cases hframing : o.writeFraming
    · rw [if_pos hframing, if_pos hframing, if_pos hframing, (hseam hframing).stuff_append hpart,
        List.append_assoc]
    · rw [if_neg hframing, if_neg hframing, if_neg hframing]
  · rfl

namespace Relay

variable {o : Options} {r r' r₁ : Relay} {halt : Halt} {input given released part : Bytes}
  {permit n : Nat}

/-- The input is known to be at its end: a read said so, or the cap is reached. -/
def AtEnd (o : Options) (input : Bytes) (journal : Journal) : Prop :=
  (∃ want, Event.read want .endOfInput ∈ journal) ∨ 0 < o.stopAfter ∧ input.length = o.stopAfter

theorem AtEnd.extends {before after : Journal} {bytes : Bytes} (h : AtEnd o input before)
    (hjournal : before.Extends after bytes) : AtEnd o input after :=
  h.imp_left fun ⟨want, hmem⟩ => ⟨want, hjournal.mem hmem⟩

/-- The counts and the journal of a relay, set against the bytes read and released. -/
structure Accounts (o : Options) (input released : Bytes) (r : Relay) : Prop where
  options : r.options = o
  decoder : r.decoder.isSome = o.readFraming
  encoder : r.encoder = if o.writeFraming then some .opened else none
  pass : r.sinks.pass.isSome = o.passThrough
  validated_le : r.validated ≤ r.buffer.length
  bytesRead : r.bytesRead = input.length
  bytesReleased : r.bytesReleased = released.length
  capped : 0 < o.stopAfter → input.length ≤ o.stopAfter ∧
    (r.ended = false → input.length < o.stopAfter)
  atEnd : r.ended → AtEnd o input r.journal
  passed : r.journal.passed = o.wire released

/-- **The ledger of a relay between two turns.** -/
structure Ledger (o : Options) (input released : Bytes) (r : Relay) :
    Prop extends Accounts o input released r where
  vouched : Vouched input r.decoder (released ++ r.ready) r.behind
  complete : r.ended → o.payload input = .ok (released ++ r.ready) ∧ r.behind = []
  seam : o.writeFraming → Seam released r.ready ∨ r.isDone

/-- The ledger of a relay within a turn, when `given` was read and not vouched for yet. -/
structure Arrived (o : Options) (input given released : Bytes) (r : Relay) : Prop
    extends Accounts o (input ++ given) released r where
  unseen : Unseen input given released r
  seam : o.writeFraming → Seam released r.ready

/-! ### Reading -/

theorem Vouched.unseen (h : Vouched input r.decoder (released ++ r.ready) r.behind)
    (hvalidated : r.validated ≤ r.buffer.length) (hdecoder : r₁.decoder = r.decoder)
    (hsame : r₁.validated = r.validated) (hview : r₁.buffer.view = r.buffer.view ++ given) :
    Unseen input given released r₁ := by
  have hlength := length_ready hvalidated
  have hparts := r.ready_append_behind
  generalize r.ready = ready at h hlength hparts
  generalize r.behind = behind at h hparts
  generalize hd : r.decoder = d at h hlength
  generalize hc : released ++ ready = confirmed at h
  cases h with
  | plain =>
    refine .plain (hdecoder.trans hd) ?_
    rw [hview, ← hparts, List.append_nil, ← List.append_assoc, hc]
  | framed hlive =>
    refine .framed hlive (hdecoder.trans hd) hc ?_ ?_
    · rw [hview, hparts]
    · rw [hsame, hlength rfl]

theorem Vouched.confirmed_eq {decoder : Option Decoder} {confirmed held : Bytes}
    (h : Vouched input decoder confirmed held) (hnone : decoder.isSome = false) :
    confirmed = input := by
  cases h with
  | plain => rfl
  | framed _ => cases hnone

theorem ready_of_view (hvalidated : r.validated ≤ r.buffer.length)
    (hdecoder : r₁.decoder = r.decoder)
    (hsame : r₁.validated = r.validated) (hview : r₁.buffer.view = r.buffer.view ++ given) :
    r.ready <+: r₁.ready := by
  unfold ready
  rw [hdecoder, hview, hsame]
  split
  · exact List.prefix_append _ _
  · refine ⟨[], ?_⟩
    rw [List.append_nil, List.take_append_of_le_length (by rwa [ReadBuffer.length_view])]

theorem asked_le_of_capped (h : 0 < r.options.stopAfter) :
    r.asked ≤ r.options.stopAfter - r.bytesRead := by
  rw [asked, if_neg (Nat.ne_of_gt h)]
  exact Nat.min_le_left _ _

/-- A reading that is not the last leaves the cap unreached. -/
theorem capped_receive {reading : Reading} (hcap : 0 < r.options.stopAfter)
    (hunder : r.bytesRead < r.options.stopAfter) (hbounded : reading.given.length ≤ r.asked)
    (hreading : ∀ fault, reading ≠ .failed fault) :
    r.bytesRead + reading.given.length ≤ r.options.stopAfter ∧
      (r.endsWith reading = false → r.bytesRead + reading.given.length < r.options.stopAfter) := by
  have hasked := asked_le_of_capped hcap
  refine ⟨by omega, fun hgoing => ?_⟩
  cases reading with
  | bytes given =>
    rw [endsWith, decide_eq_false_iff_not] at hgoing
    change r.bytesRead + given.length < r.options.stopAfter
    omega
  | endOfInput => cases hgoing
  | notReady => exact hunder
  | failed fault => exact absurd rfl (hreading fault)

theorem endsWith_cases {reading : Reading} (hended : r.ended = false)
    (hreading : ∀ fault, reading ≠ .failed fault) (h : r.endsWith reading = true) :
    reading = .endOfInput ∨
      0 < r.options.stopAfter ∧ r.options.stopAfter ≤ r.bytesRead + reading.given.length := by
  cases reading with
  | bytes given => exact Or.inr (of_decide_eq_true h)
  | endOfInput => exact Or.inl rfl
  | notReady => exact absurd (hended.symm.trans h) Bool.noConfusion
  | failed fault => exact absurd rfl (hreading fault)

/-- What a turn reads: the bytes behind those that were in the buffer before. -/
def arrival (r : Relay) : Bytes :=
  match r.filled with
  | .ok r₁ => r₁.buffer.view.drop r.buffer.length
  | .error _ => []

theorem arrival_eq (hfilled : r.filled = .ok r₁) (hview : r₁.buffer.view = r.buffer.view ++ given) :
    r.arrival = given := by
  rw [arrival, hfilled]
  dsimp only
  rw [hview, ← r.buffer.length_view, List.drop_left]

/-- Filling the buffer leaves alone what a turn has yet to do, and takes nothing back that was
    ready. -/
theorem filled_frame (hvalidated : r.validated ≤ r.buffer.length) (hfilled : r.filled = .ok r₁) :
    (∃ buffer source clock bytesRead ended journal,
        r₁ = { r with buffer, source, clock, bytesRead, ended, journal }) ∧
        r.ready <+: r₁.ready := by
  have hfilling := r.filling
  rw [hfilled] at hfilling
  cases hfilling with
  | idle _ => exact ⟨⟨_, _, _, _, _, _, rfl⟩, List.prefix_rfl⟩
  | received _ _ _ hview _ _ _ =>
    exact ⟨⟨_, _, _, _, _, _, rfl⟩, ready_of_view hvalidated rfl rfl hview⟩

theorem Ledger.seam_of_busy (h : Ledger o input released r) (hbusy : r.isDone = false) :
    o.writeFraming → Seam released r.ready := fun hframing =>
  (h.seam hframing).resolve_right (by simp [hbusy])

theorem Ledger.arrived_nil (h : Ledger o input released r) (hbusy : r.isDone = false) :
    Arrived o input [] released r where
  toAccounts := by
    rw [List.append_nil]
    exact h.toAccounts
  unseen := h.vouched.unseen h.validated_le rfl rfl (List.append_nil _).symm
  seam := h.seam_of_busy hbusy

/-- **What a turn reads is added to the input.** -/
theorem Ledger.arrive (h : Ledger o input released r) (hbusy : r.isDone = false)
    (hfilled : r.filled = .ok r₁) :
    Arrived o input r.arrival released r₁ := by
  have hfilling := r.filling
  rw [hfilled] at hfilling
  cases hfilling with
  | idle _ =>
    rw [arrival_eq hfilled (List.append_nil _).symm]
    exact h.arrived_nil hbusy
  | @received answer buffer journal hended hattempt hreading hview _ hjournal hend =>
    have hbounded := hattempt.bounded.length_given_le
    rw [arrival_eq hfilled hview]
    have hlength : buffer.length = r.buffer.length + answer.reading.given.length := by
      rw [← buffer.length_view, hview, List.length_append, ReadBuffer.length_view]
    obtain rfl := h.options
    refine ⟨⟨rfl, h.decoder, h.encoder, h.pass, ?_, ?_, h.bytesReleased, ?_, ?_, ?_⟩, ?_, ?_⟩
    · have := h.validated_le
      change r.validated ≤ buffer.length
      omega
    · rw [List.length_append, ← h.bytesRead]
      rfl
    · intro hcap
      rw [List.length_append, ← h.bytesRead]
      exact capped_receive hcap (h.bytesRead ▸ (h.capped hcap).2 hended) hbounded hreading
    · -- an input that ends with this answer was read to its end, or up to the cap
      intro hlast
      rcases endsWith_cases hended hreading hlast with hend' | ⟨hcap, hreached⟩
      · exact Or.inl ⟨r.asked, hend hend'⟩
      · have := (capped_receive hcap (h.bytesRead ▸ (h.capped hcap).2 hended) hbounded hreading).1
        rw [h.bytesRead] at this hreached
        refine Or.inr ⟨hcap, ?_⟩
        rw [List.length_append]
        exact Nat.le_antisymm this hreached
    · have := hjournal.passed_eq
      rw [List.append_nil] at this
      exact this.trans h.passed
    · exact h.vouched.unseen h.validated_le rfl rfl hview
    · intro hframing
      obtain ⟨more, hmore⟩ := (filled_frame h.validated_le hfilled).2
      rw [← hmore]
      exact (h.seam_of_busy hbusy hframing).append_right more

/-! ### Vouching -/

/-- **What has arrived is vouched for.** -/
theorem Arrived.vouch (h : Arrived o input given released r) (hvalidate : r.validate = .ok r') :
    Ledger o (input ++ given) released r' := by
  obtain ⟨buffer, decoder, validated, fresh, rfl, hsome, hvouched, hready, hle, _, _, hended⟩ :=
    validate_ok h.unseen h.validated_le hvalidate
  refine ⟨⟨h.options, hsome.trans h.decoder, h.encoder, h.pass, hle, h.bytesRead, h.bytesReleased,
    h.capped, h.atEnd, h.passed⟩, hvouched, ?_, ?_⟩
  · intro hend
    obtain ⟨hnone, hdecoded⟩ := hended hend
    refine ⟨?_, hnone⟩
    rw [Options.payload, ← h.decoder]
    cases hdecoder : r.decoder.isSome with
    | false => rw [if_neg Bool.noConfusion, hvouched.confirmed_eq (hsome.trans hdecoder)]
    | true =>
      rw [if_pos rfl]
      exact hdecoded hdecoder
  · intro hframing
    left
    rw [hready]
    exact (h.seam hframing).append_right fresh

/-! ### Releasing -/

theorem view_take_ready (hpermit : permit ≤ r.ready.length) :
    r.buffer.view.take permit = r.ready.take permit := by
  rw [← r.ready_append_behind]
  exact List.take_append_of_le_length hpermit

theorem portion_plain (hencoder : r.encoder = none) (permit : Nat) :
    r.portion permit = ⟨r.buffer.view.take permit, permit⟩ := by
  rw [portion, hencoder]

theorem portion_framed {e : Encoder} (hencoder : r.encoder = some e) (permit : Nat) :
    r.portion permit =
      ⟨stuff ((r.buffer.view.take permit).take
          (taken (r.buffer.view.take permit) (r.ended && permit == r.buffer.length))),
        taken (r.buffer.view.take permit) (r.ended && permit == r.buffer.length)⟩ := by
  rw [portion, hencoder]
  exact encode_eq _ _

theorem portion_used_le (r : Relay) (permit : Nat) : (r.portion permit).used ≤ permit := by
  rcases hencoder : r.encoder with _ | e
  · refine Nat.le_of_eq ?_
    rw [portion_plain hencoder]
  · rw [portion_framed hencoder]
    exact Nat.le_trans (taken_le _ _) (List.length_take_le _ _)

theorem block_eq (hpermit : permit ≤ r.ready.length) :
    r.block permit = r.ready.take (r.portion permit).used := by
  rw [block, view_take_ready hpermit, List.take_take, Nat.min_eq_left (r.portion_used_le permit)]

/-- What is offered to the pass-through output stands for what is written to the files. -/
theorem offered_eq (h : Accounts o input released r) (permit : Nat) :
    r.offered permit = if o.passThrough then o.body (r.block permit) else [] := by
  have hencoder := h.encoder
  unfold offered Options.body
  rw [h.pass, block]
  by_cases hframing : o.writeFraming
  · rw [if_pos hframing] at hencoder ⊢
    rw [portion_framed hencoder]
  · rw [if_neg hframing] at hencoder ⊢
    rw [portion_plain hencoder, List.take_of_length_le (List.length_take_le _ _)]

/-- **What a release offers to the pass-through output is what its wire form grows by.** -/
theorem Ledger.wire_block (h : Ledger o input released r) (hbusy : r.isDone = false)
    (hpermit : permit ≤ r.ready.length) :
    o.wire (released ++ r.block permit) = o.wire released ++ r.offered permit := by
  rw [offered_eq h.toAccounts]
  apply Options.wire_append (h.seam_of_busy hbusy)
  rw [block_eq hpermit]
  exact List.take_prefix _ _

/-- Behind what a release took there is a seam, unless that was the last. -/
theorem seam_portion {e : Encoder} (he : r.encoder = some e) (hseam : Seam released r.ready)
    (hpos : 0 < permit)
    (hpermit : permit ≤ r.ready.length) (hlast : (r.ended && permit == r.buffer.length) = false) :
    Seam (released ++ r.ready.take (r.portion permit).used)
      (r.ready.drop (r.portion permit).used) := by
  have hused : (r.portion permit).used = taken (r.ready.take permit) false := by
    rw [portion_framed he, hlast, view_take_ready hpermit]
  have hle : taken (r.ready.take permit) false ≤ permit :=
    Nat.le_trans (taken_le _ _) (List.length_take_le _ _)
  have hwindow : Seam released (r.ready.take permit) := by
    refine hseam.imp_right fun hhead => ?_
    rw [← hhead, List.head?_take, if_neg (Nat.ne_of_gt hpos)]
  have htaken := hwindow.taken.append_right (r.ready.drop permit)
  have hrest : (r.ready.take permit).drop (taken (r.ready.take permit) false) ++
      r.ready.drop permit =
      r.ready.drop (taken (r.ready.take permit) false) := by
    rw [← List.drop_append_of_le_length, List.take_append_drop]
    rw [List.length_take]
    exact Nat.le_min.2 ⟨hle, Nat.le_trans hle hpermit⟩
  rw [hused, ← hrest]
  rwa [List.take_take, Nat.min_eq_left hle] at htaken

/-- Nothing in the ledger depends on the time, the limiter, the progress or the files. -/
theorem Ledger.relog (h : Ledger o input released r) {clock : Duration} {instants : List Duration}
    {limiter : Option Limiter} {progress : Progress} {journal : Journal}
    (hjournal : r.journal.Extends journal []) :
    Ledger o input released { r with clock, instants, limiter, progress, journal } := by
  refine ⟨⟨h.options, h.decoder, h.encoder, h.pass, h.validated_le, h.bytesRead, h.bytesReleased,
    h.capped, fun hend => (h.atEnd hend).extends hjournal, ?_⟩, h.vouched, h.complete, h.seam⟩
  have hpassed := hjournal.passed_eq
  rw [List.append_nil] at hpassed
  exact hpassed.trans h.passed

theorem ready_deliver (hvalidated : r.validated ≤ r.buffer.length)
    (hused : (r.portion permit).used ≤ r.ready.length) (sinks : Sinks) (disk : Disk)
    (progress : Progress) (journal : Journal) :
    (r.deliver permit sinks disk progress journal).ready =
        r.ready.drop (r.portion permit).used ∧
      (r.deliver permit sinks disk progress journal).behind = r.behind := by
  have hlength := length_ready hvalidated
  unfold ready behind deliver at *
  dsimp only
  rw [ReadBuffer.view_consume]
  rcases hdecoder : r.decoder with _ | d
  · exact ⟨rfl, rfl⟩
  · rw [hdecoder] at hlength hused
    have hle := hlength rfl ▸ hused
    refine ⟨List.drop_take.symm, ?_⟩
    rw [List.drop_drop, Nat.add_sub_cancel' hle]

theorem portion_last {e : Encoder} (he : r.encoder = some e)
    (hlast : (r.ended && permit == r.buffer.length) = true) :
    (r.portion permit).used = r.buffer.length := by
  rw [portion_framed he, hlast]
  rw [Bool.and_eq_true, beq_iff_eq] at hlast
  simp [taken, hlast.2]

theorem isSome_pass_storing (r : Relay) (permit : Nat) :
    (r.storing permit).state.1.pass.isSome = r.sinks.pass.isSome := by
  obtain ⟨pass, hstate, hsome⟩ := r.sinks.writePass_state (r.portion permit).out
  rw [← hsome]
  change (r.sinks.writePass (r.portion permit).out).state.pass.isSome = _
  rw [hstate]

/-- **What a release takes is added to what was released.** -/
theorem Ledger.release (h : Ledger o input released r) (hbusy : r.isDone = false)
    (hpos : 0 < permit) (hpermit : permit ≤ r.ready.length)
    (hrelease : r.Releasing permit (.ok (r', n))) :
    n = (r.portion permit).used ∧ Ledger o input (released ++ r.ready.take n) r' := by
  have hseam := h.seam_of_busy hbusy
  have hused : (r.portion permit).used ≤ r.ready.length :=
    Nat.le_trans (r.portion_used_le permit) hpermit
  have hlength := (r.ready_prefix).length_le
  rw [ReadBuffer.length_view] at hlength
  cases hrelease with
  | @released sinks disk journal _ progress hpassing hstoring hstate _ _ hjournal =>
    refine ⟨rfl, ?_⟩
    obtain ⟨hready, hbehind⟩ := ready_deliver h.validated_le hused sinks disk progress journal
    have hpass : sinks.pass.isSome = o.passThrough := by
      rw [← h.pass, ← r.isSome_pass_storing permit, ← hstate]
    refine ⟨⟨h.options, h.decoder, h.encoder, hpass, ?_, h.bytesRead, ?_, h.capped,
      fun hend => (h.atEnd hend).extends hjournal, ?_⟩, ?_, ?_, ?_⟩
    · have := h.validated_le
      change r.validated - (r.portion permit).used ≤
        (r.buffer.consume (r.portion permit).used).length
      rw [ReadBuffer.length_consume]
      omega
    · rw [List.length_append, List.length_take, Nat.min_eq_left hused, ← h.bytesReleased]
      rfl
    · rw [← block_eq hpermit, h.wire_block hbusy hpermit, ← h.passed]
      exact hjournal.passed_eq
    · rw [hready, hbehind, List.append_assoc, List.take_append_drop]
      exact h.vouched
    · intro hend
      rw [hready, hbehind, List.append_assoc, List.take_append_drop]
      exact h.complete hend
    · intro hframing
      have he := h.encoder
      rw [if_pos hframing] at he
      -- after the last window nothing is left to release; any other ends at a seam
      cases hlast : r.ended && permit == r.buffer.length with
      | true =>
        right
        change (r.ended && (r.buffer.consume (r.portion permit).used).length == 0) = true
        rw [ReadBuffer.length_consume, portion_last he hlast, Nat.sub_self,
          (Bool.and_eq_true_iff.1 hlast).1]
        rfl
      | false =>
        left
        rw [hready]
        exact seam_portion he (hseam hframing) hpos hpermit hlast

theorem releasable_le (hvalidated : r.validated ≤ r.buffer.length) :
    r.releasable ≤ r.ready.length := by
  rw [releasable_eq hvalidated]
  split
  · exact Nat.zero_le _
  · exact Nat.le_refl _

theorem isDone_of_releasable (hvalidated : r.validated ≤ r.buffer.length) (h : 0 < r.releasable) :
    r.isDone = false := by
  have hle := releasable_le hvalidated
  have hlength := r.ready_prefix.length_le
  rw [ReadBuffer.length_view] at hlength
  rw [isDone, ReadBuffer.isEmpty, Bool.and_eq_false_iff, beq_eq_false_iff_ne]
  right
  omega

/-- What is granted is ready, so a relay that is granted anything is not done. -/
theorem granted_ready (hvalidated : r.validated ≤ r.buffer.length) (hsome : 0 < r.granted.permit) :
    r.isDone = false ∧ r.granted.permit ≤ r.ready.length := by
  have hpermit := r.granted_permit_le
  constructor
  · exact isDone_of_releasable hvalidated (Nat.lt_of_lt_of_le hsome hpermit)
  · exact Nat.le_trans hpermit (releasable_le hvalidated)

theorem Ledger.serve (h : Ledger o input released r) (hserve : r.releaseReady = .ok r') :
    ∃ block, Ledger o input (released ++ block) r' := by
  have hserving := r.serving
  rw [hserve] at hserving
  cases hserving with
  | idle _ => exact ⟨[], by rwa [List.append_nil]⟩
  | served hsome _ _ hjournal hrelease hjournal' =>
    obtain ⟨hbusy, hle⟩ := granted_ready h.validated_le hsome
    obtain ⟨_, hreleased⟩ := Ledger.release (h.relog hjournal) hbusy hsome hle hrelease
    exact ⟨_, hreleased.relog hjournal'⟩

theorem Ledger.tick (h : Ledger o input released r) (htick : r.tick = .ok r') :
    Ledger o input released r' := by
  obtain ⟨_, _, _, rfl, hjournal⟩ := tick_ok htick
  exact h.relog hjournal

/-! ### Whole turns -/

/-- **A turn adds what it reads to the input, and to what was released some block.** -/
theorem Ledger.turn (h : Ledger o input released r) (hbusy : r.isDone = false)
    (hturn : r.turn = .ok r') :
    ∃ block, Ledger o (input ++ r.arrival) (released ++ block) r' := by
  obtain ⟨r₁, r₂, r₃, hfilled, hvalidate, hserve, htick⟩ := turn_ok hturn
  obtain ⟨block, hserved⟩ := ((h.arrive hbusy hfilled).vouch hvalidate).serve hserve
  exact ⟨block, hserved.tick htick⟩

/-- A release that fails has passed on part of what it offered. -/
theorem Releasing.passed_prefix (h : r.Releasing permit (.error halt)) :
    ∃ bytes, bytes <+: r.offered permit ∧ r.journal.Extends halt.relay.journal bytes := by
  cases h with
  | notPassed _ _ hpart hjournal => exact ⟨_, hpart, hjournal⟩
  | notStored _ _ _ hjournal => exact ⟨_, List.prefix_rfl, hjournal⟩
  | overflowed _ _ _ _ _ hjournal => exact ⟨_, List.prefix_rfl, hjournal⟩

theorem Ledger.serve_error (h : Ledger o input released r) (hserve : r.releaseReady = .error halt) :
    ∃ block, halt.relay.journal.passed <+: o.wire (released ++ block) := by
  have hserving := r.serving
  rw [hserve] at hserving
  cases hserving with
  | unreckoned _ _ =>
    refine ⟨[], [], ?_⟩
    rw [List.append_nil, List.append_nil, ← h.passed]
  | @failed journal _ _ hsome hjournal hrelease =>
    obtain ⟨hbusy, hle⟩ := granted_ready h.validated_le hsome
    have hpaused : Ledger o input released { r with clock := r.clock + r.granted.pause, journal } :=
      h.relog hjournal
    obtain ⟨bytes, hpart, hextends⟩ := hrelease.passed_prefix
    refine ⟨r.block r.granted.permit, ?_⟩
    have hblock := hpaused.wire_block hbusy hle
    change o.wire (released ++ r.block r.granted.permit) = _ at hblock
    rw [hblock, hextends.passed_eq, hpaused.passed]
    exact (List.prefix_append_right_inj _).2 hpart
  | uncounted _ _ hsome hjournal hrelease _ =>
    obtain ⟨hbusy, hle⟩ := granted_ready h.validated_le hsome
    obtain ⟨_, hreleased⟩ := Ledger.release (h.relog hjournal) hbusy hsome hle hrelease
    exact ⟨_, [], (List.append_nil _).trans hreleased.passed⟩

/-- **A turn that fails has passed on no more than part of the wire form of a payload**, and no
    finish escape. -/
theorem Ledger.turn_error (h : Ledger o input released r) (hbusy : r.isDone = false)
    (hturn : r.turn = .error halt) :
    ∃ payload, halt.relay.journal.passed <+: o.wire payload := by
  have hquiet {r₁ : Relay} {input₁ released₁ : Bytes} (h : Accounts o input₁ released₁ r₁)
      (hjournal : r₁.journal.Extends halt.relay.journal []) :
      ∃ payload, halt.relay.journal.passed <+: o.wire payload := by
    refine ⟨released₁, [], ?_⟩
    rw [hjournal.passed_eq, List.append_nil, List.append_nil, h.passed]
  rcases Relay.turn_error hturn with hfilled |
    ⟨r₁, hfilled, hvalidate | ⟨r₂, hvalidate, hserve | ⟨r₃, hserve, htick⟩⟩⟩
  · exact hquiet h.toAccounts (filled_error hfilled)
  · have harrived := h.arrive hbusy hfilled
    obtain ⟨e, decoder, rfl, _⟩ := validate_error harrived.unseen hvalidate
    exact hquiet harrived.toAccounts (.refl r₁.journal)
  · obtain ⟨block, hpassed⟩ := ((h.arrive hbusy hfilled).vouch hvalidate).serve_error hserve
    exact ⟨_, hpassed⟩
  · obtain ⟨block, hserved⟩ := ((h.arrive hbusy hfilled).vouch hvalidate).serve hserve
    obtain ⟨_, _, _, rfl, hjournal⟩ := tick_error htick
    exact hquiet hserved.toAccounts hjournal

end Relay

end StreamRelay
