/-
  StreamRelay/Bytes.lean
  ======================
  **Runs of bytes and their hexadecimal text.**

  Everything that is relayed, framed, digested or stored is a `Bytes`, a list of bytes with the
  oldest byte first.
-/

namespace StreamRelay

/-- A run of bytes, oldest first. -/
abbrev Bytes := List UInt8

/-- The bytes of an ASCII text; a character beyond ASCII keeps its low eight bits. -/
def Bytes.ofAscii (text : List Char) : Bytes := text.map Char.toUInt8

/-! ### Hexadecimal text -/

def hexDigit (n : Nat) : Char :=
  if n < 10 then Char.ofNat ('0'.toNat + n) else Char.ofNat ('a'.toNat + (n - 10))

def hexDigits (b : UInt8) : List Char := [hexDigit (b.toNat / 16), hexDigit (b.toNat % 16)]

/-- A byte as two lowercase hexadecimal digits. -/
def hexByte (b : UInt8) : String := String.ofList (hexDigits b)

end StreamRelay
