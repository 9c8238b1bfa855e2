/-
  StreamRelay/Number/Binary64.lean
  ================================
  **Non-negative binary64 numbers in exact arithmetic.**

  Every finite binary64 number is a whole multiple of the smallest one, 2⁻¹⁰⁷⁴. A non-negative
  number is therefore kept as that multiple, a natural number, and an operation is an exact quotient
  followed by one rounding to 53 significant bits. Nothing here computes with machine floats, so
  rates, sizes and seconds are decided by natural numbers alone.
-/

namespace StreamRelay

/-! ### Rounding a quotient -/

/-- The whole number nearest to a quotient; of two equally near, the even one. -/
def roundDiv (num den : Nat) : Nat :=
  let q := num / den
  let twice := 2 * (num % den)
  if twice < den then q
  else if den < twice then q + 1
  else if q % 2 = 0 then q
  else q + 1

/-- A quotient that is whole is not changed by rounding. -/
theorem roundDiv_mul (q : Nat) {den : Nat} (h : 0 < den) : roundDiv (q * den) den = q := by
  simp [roundDiv, Nat.mul_div_cancel _ h, Nat.mul_mod_left, h]

/-! ### The numbers -/

/-- A non-negative binary64 number, counted in units of 2⁻¹⁰⁷⁴. -/
structure Binary64 where
  units : Nat
deriving DecidableEq, Repr

namespace Binary64

def one : Nat := Nat.pow 2 1074

/-- The binary64 number nearest to a quotient, ties going to the even significand: the step of the
    grid near a value of `q` units is the power of two that leaves 53 bits. -/
def ofRatio (num den : Nat) : Binary64 :=
  let scaled := num * one
  let step := Nat.pow 2 ((scaled / den).log2 - 52)
  ⟨roundDiv scaled (den * step) * step⟩

def ofNat (n : Nat) : Binary64 := ofRatio n 1

def isInfinite (x : Binary64) : Bool := decide (Nat.pow 2 1024 * one ≤ x.units)

def add (x y : Binary64) : Binary64 := ofRatio (x.units + y.units) one

def div (x y : Binary64) : Binary64 := ofRatio x.units y.units

def floor (x : Binary64) : Nat := x.units / one

/-- The nearest whole number of `1 / parts`, ties going to the even one. -/
def roundParts (x : Binary64) (parts : Nat) : Nat := roundDiv (x.units * parts) one

end Binary64

end StreamRelay
