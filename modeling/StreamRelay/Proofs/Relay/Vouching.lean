/-
  StreamRelay/Proofs/Relay/Vouching.lean
  ======================================
  **What the decoder has vouched for is what a reader of the input has confirmed.**

  The bytes of the buffer are `ready`, if they may be released as far as the framing goes, or
  `behind` those. Whatever was released before and however the input came, released and ready bytes
  make up the payload that a reader has confirmed of the input, and the bytes behind are those that
  it holds (`Vouched`). Without framing the whole input is confirmed.

  Main statements: vouching keeps to that (`validate_ok`), and it fails exactly as the input does
  (`validate_error`).
-/
import StreamRelay.Proofs.Framing.Canonical
import StreamRelay.Relay

namespace StreamRelay

open Framing

/-- **The payload of an input**: what its framing carries, if it is framed, or else the input
    itself. -/
def Options.payload (o : Options) (input : Bytes) : Except FramingError Bytes :=
  if o.readFraming then decodeChunks [input] else .ok input

namespace Relay

variable {r r' : Relay} {halt : Halt} {input given before front held : Bytes}

/-! ### The two parts of the buffer -/

/-- The buffered bytes that are payload for certain. -/
def ready (r : Relay) : Bytes :=
  match r.decoder with
  | none => r.buffer.view
  | some _ => r.buffer.view.take r.validated

/-- The buffered bytes that cannot be told yet. -/
def behind (r : Relay) : Bytes :=
  match r.decoder with
  | none => []
  | some _ => r.buffer.view.drop r.validated

theorem ready_append_behind (r : Relay) : r.ready ++ r.behind = r.buffer.view := by
  unfold ready behind
  split
  · exact List.append_nil _
  · exact List.take_append_drop _ _

theorem ready_prefix (r : Relay) : r.ready <+: r.buffer.view := ⟨r.behind, r.ready_append_behind⟩

theorem length_ready (h : r.validated ≤ r.buffer.length) (hdecoder : r.decoder.isSome) :
    r.ready.length = r.validated := by
  obtain ⟨d, hd⟩ := Option.isSome_iff_exists.1 hdecoder
  rw [ready, hd, List.length_take, ReadBuffer.length_view]
  exact Nat.min_eq_left h

/-- What may be released is what is ready, unless the whole input is to be read first. -/
theorem releasable_eq (h : r.validated ≤ r.buffer.length) :
    r.releasable = if r.options.readAll && !r.ended then 0 else r.ready.length := by
  unfold releasable
  split
  · rfl
  · rcases hd : r.decoder with _ | d
    · rw [ready, hd]
      exact (ReadBuffer.length_view _).symm
    · exact (length_ready h (by rw [hd]; rfl)).symm

/-! ### Vouching -/

/-- A decoder that has read an input stands where a reader of it does, with the same bytes confirmed
    and held. Without a decoder all of the input is confirmed. -/
inductive Vouched (input : Bytes) : Option Decoder → Bytes → Bytes → Prop where
  | plain : Vouched input none input []
  | framed (h : (Reader.start.run input).Live) :
      Vouched input (some (Reader.start.run input).decoder) (Reader.start.run input).confirmed
        (Reader.start.run input).held

theorem Vouched.length_held_le {decoder : Option Decoder} {confirmed : Bytes}
    (h : Vouched input decoder confirmed held) :
    held.length ≤ marker.length := by
  cases h with
  | plain => exact Nat.zero_le _
  | framed hlive => exact Reader.length_held_le hlive

theorem Vouched.length_le {decoder : Option Decoder} {confirmed : Bytes}
    (h : Vouched input decoder confirmed held) :
    confirmed.length + held.length ≤ input.length := by
  cases h with
  | plain => exact Nat.le_refl _
  | framed _ =>
    have hle := Reader.start.length_run_le input
    have hnone : Reader.start.confirmed.length + Reader.start.held.length = 0 := rfl
    omega

/-- A relay that was given bytes which its decoder has not seen yet, behind those that it vouched
    for of `input`. -/
inductive Unseen (input given before : Bytes) (r : Relay) : Prop where
  | plain (hdecoder : r.decoder = none) (hbytes : before ++ r.buffer.view = input ++ given)
  | framed {front : Bytes} (hlive : (Reader.start.run input).Live)
      (hdecoder : r.decoder = some (Reader.start.run input).decoder)
      (hconfirmed : before ++ front = (Reader.start.run input).confirmed)
      (hview : r.buffer.view = front ++ (Reader.start.run input).held ++ given)
      (hvalidated : r.validated = front.length)

theorem decodeChunks_singleton (input : Bytes) :
    decodeChunks [input] = (Reader.start.run input).result := by
  rw [decodeChunks_eq, List.flatten_singleton]

/-- The buffer after a window of it was replaced by what a decoder left of it. -/
theorem view_replaced {b : ReadBuffer} {front window window' : Bytes}
    (hview : b.view = front ++ window) (hlength : window'.length ≤ window.length) :
    ((b.overwrite front.length window').truncate (front.length + window'.length)).view =
      front ++ window' := by
  have hspace : b.length - front.length = window.length := by
    rw [← b.length_view, hview, List.length_append]
    omega
  rw [ReadBuffer.view_truncate, ReadBuffer.view_overwrite, hspace, List.take_of_length_le hlength,
    hview, List.take_left, ← List.length_append, List.take_left]

/-- What a decoder says of the bytes behind those that it vouched for. -/
theorem says_window (hlive : (Reader.start.run input).Live)
    (hview : r.buffer.view = front ++ (Reader.start.run input).held ++ given)
    (hvalidated : r.validated = front.length) :
    Reader.Says (Reader.start.run input).confirmed (Reader.start.run (input ++ given)) r.ended
      ((Reader.start.run input).decoder.decode (r.buffer.viewFrom r.validated) r.ended) := by
  have hwindow : r.buffer.viewFrom r.validated = (Reader.start.run input).held ++ given := by
    rw [ReadBuffer.viewFrom_eq, hview, hvalidated, List.append_assoc, List.drop_left]
  rw [hwindow, Reader.run_append]
  exact Reader.says_decode hlive given r.ended

/-- What is behind a boundary in a buffer, and what in front of it, for a relay with a decoder. -/
theorem parts_of_view {buffer : ReadBuffer} {d : Decoder} {validated : Nat}
    (hview : buffer.view = front ++ held) (hvalidated : validated = front.length) :
    ready { r with buffer, decoder := some d, validated } = front ∧
      behind { r with buffer, decoder := some d, validated } = held := by
  subst hvalidated
  rw [ready, behind]
  dsimp only
  rw [hview, List.take_left, List.drop_left]
  exact ⟨rfl, rfl⟩

/-- **Vouching keeps to what a reader confirms.** -/
theorem validate_ok (hunseen : Unseen input given before r)
    (hvalidated : r.validated ≤ r.buffer.length) (h : r.validate = .ok r') :
    ∃ buffer decoder validated fresh,
      r' = { r with buffer, decoder, validated } ∧ decoder.isSome = r.decoder.isSome ∧
      Vouched (input ++ given) decoder (before ++ r'.ready) r'.behind ∧
      r'.ready = r.ready ++ fresh ∧
      validated ≤ buffer.length ∧ buffer.capacity = r.buffer.capacity ∧
      buffer.length ≤ r.buffer.length ∧
      (r.ended → r'.behind = [] ∧
      (r.decoder.isSome → decodeChunks [input ++ given] = .ok (before ++ r'.ready))) := by
  cases hunseen with
  | plain hdecoder hbytes =>
    -- without a decoder everything is payload, and the relay is left as it is
    have hsame : r' = r := by
      rw [validate, hdecoder] at h
      cases h
      rfl
    subst hsame
    have hready : r'.ready = r'.buffer.view := by rw [ready, hdecoder]
    have hbehind : r'.behind = [] := by rw [behind, hdecoder]
    refine ⟨r'.buffer, r'.decoder, r'.validated, [], rfl, rfl, ?_, (List.append_nil _).symm,
      hvalidated, rfl, Nat.le_refl _, fun _ => ⟨hbehind, fun hsome => ?_⟩⟩
    · rw [hready, hbehind, hbytes, hdecoder]
      exact .plain
    · rw [hdecoder] at hsome
      cases hsome
  | @framed front hlive hdecoder hconfirmed hview hvalidated =>
    have hsays := says_window hlive hview hvalidated
    have hlength := (Reader.start.run input).length_run_le given
    unfold validate at h
    simp only [hdecoder] at h
    rw [← Reader.run_append] at hlength
    generalize hr : Reader.start.run (input ++ given) = R at hsays hlength
    generalize (Reader.start.run input).decoder.decode (r.buffer.viewFrom r.validated) r.ended =
      answer at h hsays
    rcases answer with ⟨d, e | decoded⟩
    · cases h
    · -- `fresh` is what the reader has confirmed of the window, and the rest of it is held
      obtain ⟨hlive', hd, hlast, fresh, hfresh, hdecoded⟩ := hsays
      subst hd hdecoded
      cases h
      have hlength' : (fresh ++ R.held).length ≤
          ((Reader.start.run input).held ++ given).length := by
        rw [hfresh] at hlength
        simp only [List.length_append] at hlength ⊢
        omega
      have hview' : ((r.buffer.overwrite r.validated (fresh ++ R.held)).truncate
          (r.validated + (fresh ++ R.held).length)).view = front ++ fresh ++ R.held := by
        rw [hvalidated, List.append_assoc]
        exact view_replaced (by rw [hview, List.append_assoc]) hlength'
      have hsafe : r.validated + fresh.length = (front ++ fresh).length := by
        rw [hvalidated, List.length_append]
      have hcapacity : ((r.buffer.overwrite r.validated (fresh ++ R.held)).truncate
          (r.validated + (fresh ++ R.held).length)).capacity = r.buffer.capacity := rfl
      generalize (r.buffer.overwrite r.validated (fresh ++ R.held)).truncate
        (r.validated + (fresh ++ R.held).length) = buffer at hview' hcapacity
      obtain ⟨hready, hbehind⟩ := r.parts_of_view (d := R.decoder) hview' hsafe
      have hready₀ : r.ready = front := by
        rw [ready, hdecoder, hview, hvalidated, List.append_assoc]
        exact List.take_left
      have hconfirmed' : before ++ (front ++ fresh) = R.confirmed := by
        rw [hfresh, ← hconfirmed, List.append_assoc]
      have hsize : buffer.length = front.length + fresh.length + R.held.length := by
        rw [← buffer.length_view, hview', List.length_append, List.length_append]
      refine ⟨buffer, _, _, fresh, rfl, by rw [hdecoder]; rfl, ?_, ?_, ?_, hcapacity, ?_, ?_⟩
      · rw [hready, hbehind, hconfirmed', ← hr]
        exact .framed (hr ▸ hlive')
      · rw [hready, hready₀]
      · rw [hsafe, hsize, List.length_append]
        exact Nat.le_add_right _ _
      · rw [hsize, ← r.buffer.length_view, hview, List.append_assoc, List.length_append]
        rw [List.length_append] at hlength'
        omega
      · intro hended
        obtain ⟨payload, hfinished⟩ := hlast hended
        rw [hbehind, hready, hconfirmed', decodeChunks_singleton, hr, hfinished]
        exact ⟨rfl, fun _ => rfl⟩

/-- **Vouching fails exactly as the input does**, whatever more of it there is to come. -/
theorem validate_error (hunseen : Unseen input given before r) (h : r.validate = .error halt) :
    ∃ e decoder, halt = ⟨.framing e, { r with decoder }⟩ ∧ r.decoder.isSome ∧
      ∀ rest, (r.ended → rest = []) → decodeChunks [input ++ given ++ rest] = .error e := by
  cases hunseen with
  | plain hdecoder _ =>
    rw [validate, hdecoder] at h
    cases h
  | @framed front hlive hdecoder hconfirmed hview hvalidated =>
    have hsays := says_window hlive hview hvalidated
    unfold validate at h
    simp only [hdecoder] at h
    generalize (Reader.start.run input).decoder.decode (r.buffer.viewFrom r.validated) r.ended =
      answer at h hsays
    rcases answer with ⟨d, e | decoded⟩
    · cases h
      obtain ⟨hresult, hrefused⟩ := hsays
      refine ⟨e, _, rfl, by rw [hdecoder]; rfl, fun rest hrest => ?_⟩
      rw [decodeChunks_singleton, Reader.run_append]
      cases hended : r.ended with
      | true =>
        rw [hrest hended]
        exact hresult
      | false =>
        -- a tag that is refused before the end is refused whatever follows
        obtain ⟨payload, hrefused⟩ := hrefused hended
        rw [hrefused, Reader.run_refused]
        rfl
    · cases h

end Relay

end StreamRelay
