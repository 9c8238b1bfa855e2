/-
  StreamRelay/Proofs/Digest/Absorption.lean
  =========================================
  **A message has the same signature however it is cut.**

  An absorber that was given a message in parts has mixed its whole blocks into the chain and keeps
  the bytes after them, as one that was given the whole message (`Absorber.Holds`).
-/
import StreamRelay.Digest.MD5

namespace StreamRelay.Digest

/-- Mixing a run goes on from what mixing the front of it left over. -/
theorem mixBlocks_append (chain : Chain) (front rest : Bytes) :
    mixBlocks chain (front ++ rest) =
      mixBlocks (mixBlocks chain front).1 ((mixBlocks chain front).2 ++ rest) := by
  fun_induction mixBlocks chain front with
  | case1 chain front hshort => rfl
  | case2 chain front hwhole ih =>
    have hlength : blockSize ≤ front.length := by
      rw [List.length_take] at hwhole
      omega
    have htake : (front ++ rest).take blockSize = front.take blockSize :=
      List.take_append_of_le_length hlength
    have hdrop : (front ++ rest).drop blockSize = front.drop blockSize ++ rest :=
      List.drop_append_of_le_length hlength
    rw [← ih, mixBlocks, htake, hdrop, dif_neg hwhole]

/-- What mixing makes of the chain is what the blocks make of it, one after the other. -/
theorem mixBlocks_fst (chain : Chain) (bytes : Bytes) :
    (mixBlocks chain bytes).1 = (blocks bytes).foldl Chain.compress chain := by
  fun_induction mixBlocks chain bytes with
  | case1 chain bytes hshort =>
    rw [blocks, dif_pos hshort]
    rfl
  | case2 chain bytes hwhole ih =>
    rw [blocks, dif_neg hwhole, ih]
    rfl

namespace Absorber

/-- An absorber has absorbed a message. -/
structure Holds (message : Bytes) (m : Absorber) : Prop where
  mixed : (m.chain, m.tail) = mixBlocks .initial message
  length : m.length = message.length

theorem holds_empty : Holds [] .empty := by
  refine ⟨?_, rfl⟩
  rw [mixBlocks, dif_pos (by decide)]
  rfl

/-- **Absorbing more is absorbing the longer message.** -/
theorem Holds.absorb {message : Bytes} {m : Absorber} (h : Holds message m) (bytes : Bytes) :
    Holds (message ++ bytes) (m.absorb bytes) := by
  obtain ⟨hmixed, hlength⟩ := h
  constructor
  · rw [mixBlocks_append, ← hmixed]
    rfl
  · rw [List.length_append, ← hlength]
    rfl

/-- **The signature of what was absorbed is that of the message.** -/
theorem Holds.signature_eq {message : Bytes} {m : Absorber} (h : Holds message m) :
    m.signature = md5 message := by
  have hchain : (mixBlocks m.chain (m.tail ++ padding m.length)).1 =
      (mixBlocks .initial (message ++ padding message.length)).1 := by
    rw [mixBlocks_append .initial message, ← h.mixed, h.length]
  rw [signature, md5, hchain, mixBlocks_fst]

end Absorber

end StreamRelay.Digest
