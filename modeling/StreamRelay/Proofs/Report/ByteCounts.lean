/-
  StreamRelay/Proofs/Report/ByteCounts.lean
  =========================================
  **What the text of a byte count tells.**

  All that the text shows can be read back from it: the exact count, and above 1024 the tenths and
  the unit (`readCount?`). So no two counts look alike, and the rest is about the tenths. They are
  the count, rounded to 53 bits and then to tenths of the unit; both roundings keep order, and both
  leave the ends of a unit's range where they are, so no count is shown as less than one unit or as
  more than 1024.
-/
import StreamRelay.Proofs.Number.Rounding
import StreamRelay.Report.ByteCount

namespace StreamRelay

variable {n m : Nat} {unit : ByteUnit}

namespace ByteUnit

def ofLetter? (c : Char) : Option ByteUnit :=
  if c = 'k' then some .kibi else if c = 'm' then some .mebi else if c = 'g' then some .gibi
    else none

theorem ofLetter?_letter (unit : ByteUnit) : ofLetter? unit.letter = some unit := by
  cases unit <;> rfl

theorem isDigit_letter (unit : ByteUnit) : unit.letter.isDigit = false := by cases unit <;> rfl

theorem size_eq_two_pow (unit : ByteUnit) : ∃ k, k ≤ 30 ∧ unit.size = Nat.pow 2 k := by
  cases unit with
  | kibi => exact ⟨10, by decide, rfl⟩
  | mebi => exact ⟨20, by decide, rfl⟩
  | gibi => exact ⟨30, by decide, rfl⟩

theorem size_pos (unit : ByteUnit) : 0 < unit.size := by cases unit <;> decide

theorem size_even (unit : ByteUnit) : unit.size % 2 = 0 := by cases unit <;> decide

/-- **A unit is chosen for counts above it and up to the next one**, the largest for all above. -/
theorem ofCount?_eq_some_iff :
    ofCount? n = some unit ↔ unit.size < n ∧ (unit ≠ .gibi → n ≤ 1024 * unit.size) := by
  have hkibi : kibi.size = 1024 := rfl
  have hmebi : mebi.size = 1048576 := rfl
  have hgibi : gibi.size = 1073741824 := rfl
  cases unit <;> grind [ofCount?]

theorem ofCount?_isSome_iff : (ofCount? n).isSome ↔ kibi.size < n := by
  have hkibi : kibi.size = 1024 := rfl
  have hmebi : mebi.size = 1048576 := rfl
  have hgibi : gibi.size = 1073741824 := rfl
  grind [ofCount?]

end ByteUnit

/-! ### Reading a count back -/

def readNumber (text : List Char) : Nat × List Char :=
  (Nat.ofDigitChars 10 (text.takeWhile Char.isDigit) 0, text.dropWhile Char.isDigit)

structure CountReading where
  scaled : Option (Nat × ByteUnit)
  count : Nat
deriving DecidableEq, Repr

def readCount? (text : String) : Option CountReading := do
  let (whole, rest) := readNumber text.toList
  if rest = ['b'] then some ⟨none, whole⟩
  else
    let (tenth, rest) := readNumber (rest.drop 1)
    let unit ← rest.head?.bind ByteUnit.ofLetter?
    some ⟨some (10 * whole + tenth, unit), (readNumber (rest.drop 3)).1⟩

/-- A number is read up to what is no digit. -/
theorem readNumber_toDigits (n : Nat) {c : Char} (hc : c.isDigit = false) (rest : List Char) :
    readNumber (Nat.toDigits 10 n ++ c :: rest) = (n, c :: rest) := by
  have hdigits : ∀ c ∈ Nat.toDigits 10 n, c.isDigit = true := fun c hmem =>
    Nat.isDigit_of_mem_toDigits (by decide) (by decide) hmem
  have hc' : ¬ c.isDigit = true := by simp [hc]
  rw [readNumber, List.takeWhile_append_of_pos hdigits, List.dropWhile_append_of_pos hdigits,
    List.takeWhile_cons_of_neg hc', List.dropWhile_cons_of_neg hc', List.append_nil,
    Nat.ofDigitChars_ten_toDigits]

theorem toList_scaled (t n : Nat) (unit : ByteUnit) :
    (toString (t / 10) ++ "." ++ toString (t % 10) ++ unit.letter.toString ++ " (" ++ toString n ++
      ")").toList =
      Nat.toDigits 10 (t / 10) ++ '.' :: (Nat.toDigits 10 (t % 10) ++
        unit.letter :: ' ' :: '(' :: (Nat.toDigits 10 n ++ [')'])) := by
  simp

theorem toList_byteCount (n : Nat) :
    (byteCount n).toList = match ByteUnit.ofCount? n with
      | none => Nat.toDigits 10 n ++ ['b']
      | some unit =>
        Nat.toDigits 10 (tenths n unit / 10) ++ '.' :: (Nat.toDigits 10 (tenths n unit % 10) ++
          unit.letter :: ' ' :: '(' :: (Nat.toDigits 10 n ++ [')'])) := by
  have hexact : (toString n ++ "b").toList = Nat.toDigits 10 n ++ ['b'] := by simp
  unfold byteCount
  rcases ByteUnit.ofCount? n with _ | unit
  · exact hexact
  · exact toList_scaled (tenths n unit) n unit

/-- **All that the text of a count shows is read back from it.** -/
theorem readCount?_byteCount (n : Nat) :
    readCount? (byteCount n) = some ⟨(ByteUnit.ofCount? n).map fun unit => (tenths n unit, unit),
      n⟩ := by
  rw [readCount?, toList_byteCount]
  rcases ByteUnit.ofCount? n with _ | unit
  · dsimp only
    rw [readNumber_toDigits n (by decide)]
    rfl
  · dsimp only
    rw [readNumber_toDigits _ (by decide)]
    have hmore : ¬ '.' :: (Nat.toDigits 10 (tenths n unit % 10) ++ unit.letter :: ' ' :: '(' ::
        (Nat.toDigits 10 n ++ [')'])) = ['b'] := by simp
    have htenths : 10 * (tenths n unit / 10) + tenths n unit % 10 = tenths n unit :=
      Nat.div_add_mod _ _
    rw [if_neg hmore, List.drop_one, List.tail_cons, readNumber_toDigits _ unit.isDigit_letter,
      List.head?_cons,
      Option.bind_some, ByteUnit.ofLetter?_letter, Option.bind_eq_bind, Option.bind_some, htenths]
    change some (CountReading.mk (some (tenths n unit, unit))
      (readNumber (Nat.toDigits 10 n ++ [')'])).1) = _
    rw [readNumber_toDigits n (by decide)]
    rfl

theorem byteCount_injective : Function.Injective byteCount := by
  intro n m h
  have hread := congrArg readCount? h
  rw [readCount?_byteCount, readCount?_byteCount] at hread
  exact congrArg CountReading.count (Option.some.inj hread)

/-! ### Tenths -/

open Binary64 (nearest nearest_mono nearest_near nearest_of_le)

/-- **Tenths are the rounded count, rounded again to tenths of the unit.** -/
theorem tenths_eq (n : Nat) (unit : ByteUnit) :
    tenths n unit = roundDiv (nearest n * 10) unit.size := by
  rw [tenths, Binary64.ofNat_eq, Nat.mul_right_comm, roundDiv_mul_mul_right _ _ Binary64.one_pos]

/-- **The quotient of a count by a unit is computed exactly**, so converting, dividing and rounding
    to tenths are those two roundings. -/
theorem tenths_eq_roundParts (n : Nat) (unit : ByteUnit) :
    tenths n unit = ((Binary64.ofNat n).div (Binary64.ofNat unit.size)).roundParts 10 := by
  obtain ⟨k, hk, hsize⟩ := unit.size_eq_two_pow
  obtain ⟨top, htop, hone⟩ := Binary64.one_eq_two_pow
  have hfine : Binary64.one = Nat.pow 2 (top - k) * unit.size := by
    have hsum : Nat.pow 2 (top - k + k) = Nat.pow 2 (top - k) * Nat.pow 2 k := Nat.pow_add 2 _ _
    rw [hone, hsize, ← hsum, Nat.sub_add_cancel (by omega)]
  have hunit : nearest unit.size = unit.size := by
    rw [hsize]
    exact Binary64.nearest_of_fits (Binary64.fits_two_pow k)
  have hquotient : (Binary64.ofNat n).div (Binary64.ofNat unit.size) =
      ⟨nearest n * Nat.pow 2 (top - k)⟩ := by
    rw [Binary64.div, Binary64.ofNat_eq, Binary64.ofNat_eq, hunit]
    refine Binary64.ofRatio_of_fits (Nat.mul_pos unit.size_pos Binary64.one_pos) ?_
      ((Binary64.fits_nearest n).mul_two_pow _)
    rw [hfine]
    dsimp only
    ac_rfl
  have hscale : nearest n * Nat.pow 2 (top - k) * 10 = nearest n * 10 * Nat.pow 2 (top - k) :=
    Nat.mul_right_comm _ _ _
  rw [hquotient, Binary64.roundParts, hscale, hfine, Nat.mul_comm _ unit.size, tenths_eq]
  exact (roundDiv_mul_mul_right _ _ (Binary64.two_pow_pos _)).symm

theorem tenths_mono (h : n ≤ m) (unit : ByteUnit) : tenths n unit ≤ tenths m unit := by
  rw [tenths_eq, tenths_eq]
  exact roundDiv_mono _ (Nat.mul_le_mul_right 10 (nearest_mono h))

/-- Whole units are shown as they are, up to where the conversion rounds. -/
theorem tenths_mul_size (q : Nat) (h : q * unit.size ≤ Nat.pow 2 53) :
    tenths (q * unit.size) unit = 10 * q := by
  have hscale : q * unit.size * 10 = 10 * q * unit.size := by ac_rfl
  rw [tenths_eq, nearest_of_le h, hscale, roundDiv_mul _ unit.size_pos]

/-- How far the tenths may be from the count: half a tenth of the unit, and what the conversion may
    add. -/
def tolerance (n : Nat) (unit : ByteUnit) : Nat :=
  unit.size / 2 + if Nat.pow 2 53 < n then 10 * 1024 else 0

/-- **The tenths are those of the count, but for the two roundings.** -/
theorem tenths_near (hn : n < Nat.pow 2 64) (unit : ByteUnit) :
    tenths n unit * unit.size ≤ 10 * n + tolerance n unit ∧
    10 * n ≤ tenths n unit * unit.size + tolerance n unit := by
  have hround := roundDiv_near (nearest n * 10) unit.size_pos
  have heven := unit.size_even
  rw [tenths_eq, tolerance]
  generalize roundDiv (nearest n * 10) unit.size * unit.size = shown at *
  split
  · have hnear := nearest_near hn
    omega
  · next hexact =>
    rw [nearest_of_le (Nat.le_of_not_lt hexact)] at hround
    omega

/-- **No count is shown as less than one unit, or as more than 1024 of one that has a next one.** -/
theorem tenths_bounds (h : ByteUnit.ofCount? n = some unit) :
    10 ≤ tenths n unit ∧ (unit ≠ .gibi → tenths n unit ≤ 10240) := by
  obtain ⟨hlow, hhigh⟩ := ByteUnit.ofCount?_eq_some_iff.1 h
  have hsmall : 1024 * unit.size ≤ Nat.pow 2 53 := by cases unit <;> decide
  constructor
  · calc 10 = tenths (1 * unit.size) unit := (tenths_mul_size 1 (by omega)).symm
      _ ≤ tenths n unit := tenths_mono (by omega) unit
  · intro hnext
    calc tenths n unit ≤ tenths (1024 * unit.size) unit := tenths_mono (hhigh hnext) unit
      _ = 10240 := tenths_mul_size 1024 hsmall

/-- **Faithful byte counts.** The exact count is read back from every text, so no two counts look
    alike. A count above 1024 is shown in a unit that it exceeds, as tenths: they are what
    converting it, dividing it by the unit and rounding to one decimal gives; they never fall below
    one unit, nor, in the units that have a next one, above 1024 of them; they are those of the
    count but for the two roundings; and within a unit more bytes never look like fewer. -/
theorem byteCount_faithful :
    (∀ n, (readCount? (byteCount n)).map (·.count) = some n) ∧
    Function.Injective byteCount ∧
    (∀ n, ByteUnit.kibi.size < n → ∃ unit, ByteUnit.ofCount? n = some unit) ∧
    (∀ n unit, n < Nat.pow 2 64 → ByteUnit.ofCount? n = some unit → ∃ t,
      readCount? (byteCount n) = some ⟨some (t, unit), n⟩ ∧
      t = ((Binary64.ofNat n).div (Binary64.ofNat unit.size)).roundParts 10 ∧
      10 ≤ t ∧ (unit ≠ .gibi → t ≤ 10240) ∧
      t * unit.size ≤ 10 * n + tolerance n unit ∧ 10 * n ≤ t * unit.size + tolerance n unit) ∧
    (∀ n m unit t t', n ≤ m → readCount? (byteCount n) = some ⟨some (t, unit), n⟩ →
      readCount? (byteCount m) = some ⟨some (t', unit), m⟩ → t ≤ t') := by
  have hshown {n : Nat} {unit : ByteUnit} {t : Nat}
      (h : readCount? (byteCount n) = some ⟨some (t, unit), n⟩) :
      t = tenths n unit := by
    rw [readCount?_byteCount] at h
    obtain ⟨chosen, -, hchosen⟩ :=
      Option.map_eq_some_iff.1 (congrArg CountReading.scaled (Option.some.inj h))
    obtain ⟨htenths, rfl⟩ := Prod.mk.inj hchosen
    exact htenths.symm
  refine ⟨fun n => ?_, byteCount_injective, fun n hlarge => ?_, fun n unit hn hunit => ?_,
    fun n m unit t t' hle hread hread' => ?_⟩
  · rw [readCount?_byteCount]
    rfl
  · exact Option.isSome_iff_exists.1 (ByteUnit.ofCount?_isSome_iff.2 hlarge)
  · obtain ⟨hlow, hhigh⟩ := tenths_bounds hunit
    refine ⟨tenths n unit, ?_, tenths_eq_roundParts n unit, hlow, hhigh, tenths_near hn unit⟩
    rw [readCount?_byteCount, hunit, Option.map_some]
  · rw [hshown hread, hshown hread']
    exact tenths_mono hle unit

/-- The largest count of 64 bits is rounded up to a whole number of units. -/
example : byteCount (Nat.pow 2 64 - 1) = "17179869184.0g (18446744073709551615)" := by
  decide +kernel

end StreamRelay
