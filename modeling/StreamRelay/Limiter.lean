/-
  StreamRelay/Limiter.lean
  ========================
  **Pacing releases to a ceiling in bytes per second.**

  The limiter compares what was released with what the ceiling allows for the time since it was
  opened. If the difference is less than the smallest chunk worth releasing, it asks for a pause
  of one quantum and grants exactly that chunk. With ten quanta in a second, output stays within
  one quantum's worth of bytes of the ceiling.

  The limiter does not own a clock: it is told the moment, and says how long to pause. It fails
  if a number that it needs cannot be kept: the moment, the product of ceiling and time, or the
  count of what was released.
-/
import StreamRelay.Clock

namespace StreamRelay

def quantaPerSecond : Nat := 10

/-- The pause that the limiter asks for when output is ahead of pace. -/
def quantum : Duration := Duration.perSecond / quantaPerSecond

/-- Pacing to `ceiling` bytes per second since the moment `opened`; a ceiling of zero allows
    everything. -/
structure Limiter where
  ceiling : Nat
  opened : Duration
  released : Nat
deriving DecidableEq, Repr

/-- What the limiter grants: pause first, then at most this many bytes may be released. -/
structure Grant where
  pause : Duration
  permit : Nat
deriving DecidableEq, Repr

namespace Limiter

def start (ceiling : Nat) (now : Duration) : Limiter := ⟨ceiling, now, 0⟩

def start? (ceiling : Nat) (elapsed : Duration) : Except Overflow Limiter :=
  (Duration.moment? elapsed).map (start ceiling)

/-- The smallest number of bytes granted while any are available: a quantum's worth, and at least
    one. -/
def minChunk (l : Limiter) : Nat := max (l.ceiling / quantaPerSecond) 1

/-- The bytes that the ceiling allows for a span, as far as they can be counted. -/
def due (l : Limiter) (span : Duration) : Nat :=
  clampCount (l.ceiling * span / Duration.perSecond)

/-- **The bytes that may be released by a span after the start**, if ceiling times nanoseconds fits
    in a product. -/
def projected? (l : Limiter) (span : Duration) : Except Overflow Nat :=
  if l.ceiling * span < productLimit then .ok (l.due span) else .error .product

/-- The span that a decision is based on: a limiter that was opened just now counts as open for one
    quantum. -/
def elapsed (l : Limiter) (now : Duration) : Duration :=
  if now - l.opened = 0 then quantum else now - l.opened

/-- What is granted of `available` bytes if `allowance` may be released without a pause. -/
def grantOf (l : Limiter) (allowance available : Nat) : Grant :=
  if allowance < l.minChunk then ⟨quantum, min l.minChunk available⟩
  else ⟨0, min allowance available⟩

/-- **How many of `available` bytes may be released**, asked a span past the start of the clock. The
    moment is only looked at if the grant depends on it. -/
def ask? (l : Limiter) (span : Duration) (available : Nat) : Except Overflow Grant :=
  if l.ceiling = 0 ∨ available = 0 then .ok ⟨0, available⟩
  else
    (Duration.moment? span).bind fun now =>
      (l.projected? (l.elapsed now)).map fun projection =>
        l.grantOf (projection - l.released) available

def record? (l : Limiter) (bytes : Nat) : Except Overflow Limiter :=
  (addCount? l.released bytes).map fun released => { l with released }

/-! ### What is granted -/

def allowance (l : Limiter) (now : Duration) : Nat := l.due (l.elapsed now) - l.released

def grant (l : Limiter) (now : Duration) (available : Nat) : Grant :=
  if l.ceiling = 0 ∨ available = 0 then ⟨0, available⟩
  else l.grantOf (l.allowance now) available

def Reckons (l : Limiter) (now : Duration) (available : Nat) : Prop :=
  l.ceiling = 0 ∨ available = 0 ∨
    now < Duration.horizon ∧ l.ceiling * l.elapsed now < productLimit

instance (l : Limiter) (now : Duration) (available : Nat) : Decidable (l.Reckons now available) :=
  inferInstanceAs (Decidable (_ ∨ _ ∨ _ ∧ _))

/-- A limiter answers exactly if its numbers can be kept. -/
theorem ask?_cases (l : Limiter) (now : Duration) (available : Nat) :
    (l.ask? now available = .ok (l.grant now available) ∧ l.Reckons now available) ∨
      ∃ e, l.ask? now available = .error e ∧ ¬ l.Reckons now available := by
  unfold ask? grant Reckons
  by_cases hidle : l.ceiling = 0 ∨ available = 0
  · rw [if_pos hidle, if_pos hidle]
    exact Or.inl ⟨rfl, or_assoc.1 (Or.inl hidle)⟩
  rw [if_neg hidle, if_neg hidle, ← or_assoc, or_iff_right hidle]
  by_cases hsoon : now < Duration.horizon
  · rw [Duration.moment?_of_lt hsoon, Except.bind, projected?]
    by_cases hfits : l.ceiling * l.elapsed now < productLimit
    · rw [if_pos hfits]
      exact Or.inl ⟨rfl, hsoon, hfits⟩
    · rw [if_neg hfits]
      exact Or.inr ⟨.product, rfl, fun h => hfits h.2⟩
  · rw [Duration.moment?_of_le (Nat.le_of_not_lt hsoon)]
    exact Or.inr ⟨.moment, rfl, fun h => hsoon h.1⟩

theorem ask?_ok {l : Limiter} {now : Duration} {available : Nat} {grant : Grant}
    (h : l.ask? now available = .ok grant) :
    grant = l.grant now available ∧ l.Reckons now available := by
  rcases l.ask?_cases now available with ⟨hok, hreckons⟩ | ⟨e, herror, _⟩
  · rw [hok] at h
    exact ⟨(Except.ok.inj h).symm, hreckons⟩
  · rw [herror] at h
    cases h

theorem Reckons.ask?_eq {l : Limiter} {now : Duration} {available : Nat}
    (h : l.Reckons now available) : l.ask? now available = .ok (l.grant now available) := by
  rcases l.ask?_cases now available with ⟨hok, _⟩ | ⟨e, _, hnot⟩
  · exact hok
  · exact absurd h hnot

theorem record?_ok {l l' : Limiter} {bytes : Nat} (h : l.record? bytes = .ok l') :
    l' = { l with released := l.released + bytes } ∧ l.released + bytes < countLimit := by
  unfold record? at h
  rcases hsum : addCount? l.released bytes with e | sum
  · rw [hsum] at h
    cases h
  · obtain ⟨rfl, hfits⟩ := addCount?_eq_ok hsum
    rw [hsum] at h
    cases h
    exact ⟨rfl, hfits⟩

theorem record?_error {l : Limiter} {bytes : Nat} {e : Overflow} (h : l.record? bytes = .error e) :
    countLimit ≤ l.released + bytes := by
  unfold record? at h
  rcases hsum : addCount? l.released bytes with e | sum
  · exact (addCount?_eq_error hsum).2
  · rw [hsum] at h
    cases h

theorem minChunk_pos (l : Limiter) : 0 < l.minChunk := by unfold minChunk; omega

/-- A grant never exceeds what is available. -/
theorem permit_grant_le (l : Limiter) (now : Duration) (available : Nat) :
    (l.grant now available).permit ≤ available := by
  unfold grant grantOf
  split
  · exact Nat.le_refl _
  · split <;> exact Nat.min_le_right _ _

/-- Something is granted whenever anything is available. -/
theorem permit_grant_pos (l : Limiter) (now : Duration) {available : Nat} (h : 0 < available) :
    0 < (l.grant now available).permit := by
  have hm := l.minChunk_pos
  unfold grant grantOf
  split
  · exact h
  · split
    · exact Nat.lt_min.2 ⟨hm, h⟩
    · exact Nat.lt_min.2 ⟨by omega, h⟩

theorem pause_grant_le (l : Limiter) (now : Duration) (available : Nat) :
    (l.grant now available).pause ≤ quantum := by
  unfold grant grantOf
  split
  · exact Nat.zero_le _
  · split
    · exact Nat.le_refl _
    · exact Nat.zero_le _

end Limiter

end StreamRelay
