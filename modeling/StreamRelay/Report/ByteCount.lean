/-
  StreamRelay/Report/ByteCount.lean
  =================================
  **Byte counts for people.**

  A count up to 1024 is shown as it is. A larger one is shown in the unit it exceeds, with one
  decimal, and then exactly in parentheses, so that nothing is lost by the rounding.
-/
import StreamRelay.Number.Binary64

namespace StreamRelay

inductive ByteUnit where
  | kibi
  | mebi
  | gibi
deriving DecidableEq, Repr

namespace ByteUnit

def size : ByteUnit → Nat
  | .kibi => Nat.pow 2 10
  | .mebi => Nat.pow 2 20
  | .gibi => Nat.pow 2 30

def letter : ByteUnit → Char
  | .kibi => 'k'
  | .mebi => 'm'
  | .gibi => 'g'

def ofCount? (n : Nat) : Option ByteUnit :=
  if gibi.size < n then some .gibi
  else if mebi.size < n then some .mebi
  else if kibi.size < n then some .kibi
  else none

end ByteUnit

/-- A count in tenths of a unit: the count is taken as the nearest binary64 number, and its quotient
    by the unit is rounded to one decimal, a tie going to the even digit. -/
def tenths (n : Nat) (unit : ByteUnit) : Nat :=
  roundDiv ((Binary64.ofNat n).units * 10) (unit.size * Binary64.one)

/-- **A byte count as text**: `512b`, `1.5k (1536)`, `2.0m (2097152)`. -/
def byteCount (n : Nat) : String :=
  match ByteUnit.ofCount? n with
  | none => toString n ++ "b"
  | some unit =>
    let t := tenths n unit
    toString (t / 10) ++ "." ++ toString (t % 10) ++ unit.letter.toString ++ " (" ++
      toString n ++ ")"

end StreamRelay
