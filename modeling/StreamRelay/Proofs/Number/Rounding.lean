/-
  StreamRelay/Proofs/Number/Rounding.lean
  =======================================
  **Rounding to 53 bits, on whole numbers.**

  Rounding a quotient keeps order, moves it by half a step at most, and depends on the quotient
  alone. Near a number the step of the grid is the power of two that leaves 53 bits; a number that
  stands on its own grid (`Fits`) is its own rounding, and a quotient that is such a number is
  computed exactly (`ofRatio_of_fits`). As a natural number has no finer parts than one, converting
  it rounds it to the grid of whole numbers (`units_ofNat`), which keeps order also across powers of
  two, where the step changes.
-/
import StreamRelay.Number.Binary64

namespace StreamRelay

variable {num den a b c m n q : Nat}

/-! ### Rounding a quotient -/

theorem roundDiv_cases (num den : Nat) :
    (roundDiv num den = num / den ∧ 2 * (num % den) ≤ den) ∨
      (roundDiv num den = num / den + 1 ∧ den ≤ 2 * (num % den)) := by
  unfold roundDiv
  dsimp only
  split
  · exact .inl ⟨rfl, by omega⟩
  · split
    · exact .inr ⟨rfl, by omega⟩
    · split
      · exact .inl ⟨rfl, by omega⟩
      · exact .inr ⟨rfl, by omega⟩

/-- **Rounding moves a quotient by half a step at most.** -/
theorem roundDiv_near (num : Nat) (hden : 0 < den) :
    2 * (roundDiv num den * den) ≤ 2 * num + den ∧
    2 * num ≤ 2 * (roundDiv num den * den) + den := by
  have hsplit := Nat.div_add_mod' num den
  have hrest' := Nat.mod_lt num hden
  rcases roundDiv_cases num den with ⟨hround, hrest⟩ | ⟨hround, hrest⟩
  · rw [hround]
    omega
  · have hnext : (num / den + 1) * den = num / den * den + den := Nat.succ_mul _ _
    rw [hround, hnext]
    omega

/-- **Rounding keeps order.** -/
theorem roundDiv_mono (den : Nat) (h : a ≤ b) : roundDiv a den ≤ roundDiv b den := by
  rcases Nat.lt_or_eq_of_le (Nat.div_le_div_right (c := den) h) with hless | hsame
  · have ha := roundDiv_cases a den
    have hb := roundDiv_cases b den
    omega
  · have hrest : a % den ≤ b % den := by
      have ha := Nat.div_add_mod' a den
      have hb := Nat.div_add_mod' b den
      rw [hsame] at ha
      omega
    unfold roundDiv
    dsimp only
    rw [hsame]
    grind

/-- A common factor has no say in the rounding. -/
theorem roundDiv_mul_mul_right (num den : Nat) (hc : 0 < c) :
    roundDiv (num * c) (den * c) = roundDiv num den := by
  have hscale (x y : Nat) : 2 * (x * c) < y * c ↔ 2 * x < y := by
    rw [← Nat.mul_assoc]
    exact Nat.mul_lt_mul_right hc
  have hscale' (x y : Nat) : x * c < 2 * (y * c) ↔ x < 2 * y := by
    rw [← Nat.mul_assoc]
    exact Nat.mul_lt_mul_right hc
  unfold roundDiv
  simp only [Nat.mul_div_mul_right _ _ hc, Nat.mul_mod_mul_right, hscale, hscale']

theorem roundDiv_mul_of_dvd (hden : 0 < den) (hdvd : den ∣ q) : roundDiv q den * den = q := by
  obtain ⟨k, rfl⟩ := hdvd
  rw [Nat.mul_comm den k, roundDiv_mul k hden]

/-- A multiple of the divisor stays below what rounds from above it. -/
theorem le_roundDiv_mul (hden : 0 < den) (hdvd : den ∣ q) (h : q ≤ num) :
    q ≤ roundDiv num den * den := by
  calc q = roundDiv q den * den := (roundDiv_mul_of_dvd hden hdvd).symm
    _ ≤ roundDiv num den * den := Nat.mul_le_mul_right den (roundDiv_mono den h)

/-- A multiple of the divisor stays above what rounds from below it. -/
theorem roundDiv_mul_le (hden : 0 < den) (hdvd : den ∣ q) (h : num ≤ q) :
    roundDiv num den * den ≤ q := by
  calc roundDiv num den * den ≤ roundDiv q den * den :=
        Nat.mul_le_mul_right den (roundDiv_mono den h)
    _ = q := roundDiv_mul_of_dvd hden hdvd

namespace Binary64

/-! ### The grid -/

/-- The step of the grid near a number: the power of two that leaves 53 bits. -/
def step (n : Nat) : Nat := Nat.pow 2 (n.log2 - 52)

/-- The number of the grid that is nearest to a number, of two equally near the one with the even
    significand. -/
def nearest (n : Nat) : Nat := roundDiv n (step n) * step n

def Fits (n : Nat) : Prop := step n ∣ n

theorem two_pow_pos (k : Nat) : 0 < Nat.pow 2 k := Nat.pow_pos (by decide)

theorem step_pos (n : Nat) : 0 < step n := two_pow_pos _

/-- One is a power of two, and a high one. -/
theorem one_eq_two_pow : ∃ k, 1074 ≤ k ∧ one = Nat.pow 2 k := by
  unfold one
  exact ⟨1074, Nat.le_refl 1074, rfl⟩

theorem one_pos : 0 < one := by
  obtain ⟨k, -, hk⟩ := one_eq_two_pow
  rw [hk]
  exact two_pow_pos k

theorem fits_of_lt (h : n < Nat.pow 2 53) : Fits n := by
  have hstep : step n = 1 := by
    rcases Nat.eq_zero_or_pos n with rfl | hpos
    · rfl
    · have hlog : n.log2 < 53 := (Nat.log2_lt (Nat.ne_of_gt hpos)).2 h
      rw [step, Nat.sub_eq_zero_of_le (Nat.le_of_lt_succ hlog)]
  rw [Fits, hstep]
  exact Nat.one_dvd n

theorem log2_mul_two_pow (hn : n ≠ 0) (k : Nat) : (n * Nat.pow 2 k).log2 = n.log2 + k := by
  have hpos := two_pow_pos k
  refine (Nat.log2_eq_iff (Nat.mul_ne_zero hn (Nat.ne_of_gt hpos))).2 ⟨?_, ?_⟩
  · rw [Nat.pow_add]
    exact Nat.mul_le_mul_right _ (Nat.log2_self_le hn)
  · rw [Nat.add_right_comm, Nat.pow_add]
    exact Nat.mul_lt_mul_of_pos_right Nat.lt_log2_self hpos

/-- Powers of two do not change what stands on the grid. -/
theorem Fits.mul_two_pow (h : Fits n) (k : Nat) : Fits (n * Nat.pow 2 k) := by
  rcases Nat.eq_zero_or_pos n with rfl | hpos
  · rw [Nat.zero_mul]
    exact Nat.dvd_zero _
  · have hexp : n.log2 + k - 52 ≤ n.log2 - 52 + k := by omega
    have hcoarse : Nat.pow 2 (n.log2 + k - 52) ∣ step n * Nat.pow 2 k :=
      Nat.pow_add 2 (n.log2 - 52) k ▸ Nat.pow_dvd_pow 2 hexp
    rw [Fits, step, log2_mul_two_pow (Nat.ne_of_gt hpos)]
    exact Nat.dvd_trans hcoarse (Nat.mul_dvd_mul_right h _)

theorem fits_two_pow (k : Nat) : Fits (Nat.pow 2 k) := by
  have hone : Fits 1 := fits_of_lt (by decide)
  simpa using hone.mul_two_pow k

/-- **What stands on the grid is its own rounding.** -/
theorem nearest_of_fits (h : Fits n) : nearest n = n := by
  obtain ⟨k, hk⟩ := h
  have hround : roundDiv n (step n) = k := by
    conv => lhs; arg 1; rw [hk, Nat.mul_comm]
    exact roundDiv_mul k (step_pos n)
  rw [nearest, hround, Nat.mul_comm, ← hk]

/-- **Rounding stays between the powers of two around a number**, both included. -/
theorem nearest_bounds (hn : n ≠ 0) :
    Nat.pow 2 n.log2 ≤ nearest n ∧ nearest n ≤ Nat.pow 2 (n.log2 + 1) :=
  ⟨le_roundDiv_mul (step_pos n) (Nat.pow_dvd_pow 2 (by omega)) (Nat.log2_self_le hn),
    roundDiv_mul_le (step_pos n) (Nat.pow_dvd_pow 2 (by omega)) (Nat.le_of_lt Nat.lt_log2_self)⟩

/-- **Rounding to the grid keeps order**, also where the step changes. -/
theorem nearest_mono (h : n ≤ m) : nearest n ≤ nearest m := by
  rcases Nat.eq_zero_or_pos n with rfl | hpos
  · exact Nat.zero_le _
  · have hn := Nat.ne_of_gt hpos
    have hm := Nat.ne_of_gt (Nat.lt_of_lt_of_le hpos h)
    have hlog : n.log2 ≤ m.log2 := (Nat.le_log2 hm).2 (Nat.le_trans (Nat.log2_self_le hn) h)
    rcases Nat.lt_or_eq_of_le hlog with hless | hsame
    · -- the next power of two stands between both roundings
      calc nearest n ≤ Nat.pow 2 (n.log2 + 1) := (nearest_bounds hn).2
        _ ≤ Nat.pow 2 m.log2 := Nat.pow_le_pow_right (by decide) hless
        _ ≤ nearest m := (nearest_bounds hm).1
    · have hstep : step n = step m := by rw [step, hsame, step]
      rw [nearest, nearest, hstep]
      exact Nat.mul_le_mul_right _ (roundDiv_mono _ h)

/-- **What was rounded stands on the grid**, also if it reached the next power of two. -/
theorem fits_nearest (n : Nat) : Fits (nearest n) := by
  rcases Nat.eq_zero_or_pos n with rfl | hpos
  · exact fits_of_lt (by decide)
  · obtain ⟨hlow, hhigh⟩ := nearest_bounds (Nat.ne_of_gt hpos)
    rcases Nat.lt_or_eq_of_le hhigh with hless | htop
    · have hne : nearest n ≠ 0 := Nat.ne_of_gt (Nat.lt_of_lt_of_le (two_pow_pos _) hlow)
      have hlog : (nearest n).log2 = n.log2 := (Nat.log2_eq_iff hne).2 ⟨hlow, hless⟩
      rw [Fits, step, hlog]
      exact Nat.dvd_mul_left _ _
    · rw [htop]
      exact fits_two_pow _

/-- Below `2 ^ 64` the grid is never further than 1024. -/
theorem nearest_near (h : n < Nat.pow 2 64) : nearest n ≤ n + 1024 ∧ n ≤ nearest n + 1024 := by
  have hstep : step n ≤ Nat.pow 2 11 := by
    refine Nat.pow_le_pow_right (by decide) ?_
    rcases Nat.eq_zero_or_pos n with rfl | hpos
    · decide
    · have hlog : n.log2 < 64 := (Nat.log2_lt (Nat.ne_of_gt hpos)).2 h
      omega
  have hnear := roundDiv_near n (step_pos n)
  change step n ≤ 2048 at hstep
  rw [nearest]
  omega

/-- Up to `2 ^ 53` every number is on the grid. -/
theorem nearest_of_le (h : n ≤ Nat.pow 2 53) : nearest n = n := by
  rcases Nat.lt_or_eq_of_le h with hless | rfl
  · exact nearest_of_fits (fits_of_lt hless)
  · exact nearest_of_fits (fits_two_pow 53)

/-! ### Operations -/

/-- **A quotient that stands on the grid is computed exactly.** -/
theorem ofRatio_of_fits (hden : 0 < den) (hq : num * one = q * den) (hfits : Fits q) :
    ofRatio num den = ⟨q⟩ := by
  have hquotient : num * one / den = q := by rw [hq, Nat.mul_div_cancel _ hden]
  have hround : roundDiv (num * one) (den * step q) * step q = nearest q := by
    rw [hq, Nat.mul_comm den, roundDiv_mul_mul_right _ _ hden, nearest]
  have hvalue : ofRatio num den =
      ⟨roundDiv (num * one) (den * step (num * one / den)) * step (num * one / den)⟩ := rfl
  rw [hvalue, hquotient, hround, nearest_of_fits hfits]

/-- **Converting a natural number rounds it to the grid of whole numbers.** -/
theorem ofNat_eq (n : Nat) : ofNat n = ⟨nearest n * one⟩ := by
  obtain ⟨k, -, hk⟩ := one_eq_two_pow
  by_cases hsmall : n < Nat.pow 2 53
  · have hfits := fits_of_lt hsmall
    rw [nearest_of_fits hfits]
    refine ofRatio_of_fits Nat.one_pos (by rw [Nat.mul_one]) ?_
    rw [hk]
    exact hfits.mul_two_pow k
  · have hn : n ≠ 0 := fun h => hsmall (by rw [h]; decide)
    have hlog : 53 ≤ n.log2 := (Nat.le_log2 hn).2 (Nat.le_of_not_lt hsmall)
    have hstep : step (n * one) = step n * one := by
      have hexp : n.log2 + k - 52 = n.log2 - 52 + k := by omega
      rw [step, hk, log2_mul_two_pow hn, hexp, step]
      exact Nat.pow_add 2 _ _
    have hvalue : ofNat n = ⟨roundDiv (n * one) (1 * step (n * one / 1)) * step (n * one / 1)⟩ :=
      rfl
    rw [hvalue, Nat.div_one, Nat.one_mul, hstep, roundDiv_mul_mul_right _ _ one_pos, nearest,
      Nat.mul_assoc]

end Binary64

end StreamRelay
