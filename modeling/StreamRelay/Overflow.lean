/-
  StreamRelay/Overflow.lean
  =========================
  **Numbers that do not fit where they are kept.**

  Counts of bytes are kept in 64 bits, products of a count and a span are formed in 128. A run
  does not go on with a number that does not fit.
-/

namespace StreamRelay

/-- Why a number cannot be kept: a span is too long, a moment too late, a sum of counts or a
    product too large. -/
inductive Overflow where
  | span
  | moment
  | sum
  | product
deriving DecidableEq, Repr

def Overflow.message : Overflow → String
  | .span => "overflow when adding durations"
  | .moment => "overflow when adding duration to instant"
  | .sum => "attempt to add with overflow"
  | .product => "attempt to multiply with overflow"

def countLimit : Nat := Nat.pow 2 64

def productLimit : Nat := Nat.pow 2 128

def addCount? (a b : Nat) : Except Overflow Nat :=
  if a + b < countLimit then .ok (a + b) else .error .sum

/-- A count that does not fit is cut to the largest that does. -/
def clampCount (n : Nat) : Nat := min n (countLimit - 1)

theorem addCount?_of_lt {a b : Nat} (h : a + b < countLimit) : addCount? a b = .ok (a + b) :=
  if_pos h

theorem addCount?_eq_ok {a b sum : Nat} (h : addCount? a b = .ok sum) :
    sum = a + b ∧ a + b < countLimit := by
  unfold addCount? at h
  split at h
  · next hfits =>
    cases h
    exact ⟨rfl, hfits⟩
  · cases h

theorem addCount?_eq_error {a b : Nat} {e : Overflow} (h : addCount? a b = .error e) :
    e = .sum ∧ countLimit ≤ a + b := by
  unfold addCount? at h
  split at h
  · cases h
  · next hlarge =>
    cases h
    exact ⟨rfl, Nat.le_of_not_lt hlarge⟩

theorem clampCount_lt (n : Nat) : clampCount n < countLimit :=
  Nat.lt_of_le_of_lt (Nat.min_le_right _ _) (by decide)

end StreamRelay
