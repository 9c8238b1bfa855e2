/-
  StreamRelay/Proofs/CommandLine/SizeGrammar.lean
  ===============================================
  **Which texts are sizes, and of how many bytes.**

  A size is, up to blank characters around it, an optional plus sign, decimal digits and an optional
  unit letter (`IsSize`). Its digits are given their value by place, and have to be a number below
  2⁶⁴ (`readNumber_eq_ok_iff`). The unit is looked for in the last character; a numeral ends in a
  digit, so this is the only way to tell the parts apart (`isSize_iff`).

  The last character can be looked up in the last byte of the text, since no byte of a character of
  several bytes is a letter. So a cut in front of that byte never falls into a character
  (`splitUnitBytes?_ofList`).

  Main statement: `parseSize_grammar`.
-/
import Mathlib.Data.List.Basic
import Mathlib.Data.List.TakeWhile
import Mathlib.Data.Nat.Digits.Defs
import StreamRelay.CommandLine.Size

namespace StreamRelay

/-! ### Blank ends -/

namespace Text

variable {text core : List Char}

/-- What is left of a text without the blank characters at its ends. -/
structure IsCore (text core : List Char) : Prop where
  blank : ∃ front back, text = front ++ core ++ back ∧ (∀ c ∈ front, isBlank c) ∧
    ∀ c ∈ back, isBlank c
  head : ∀ c ∈ core.head?, isBlank c = false
  last : ∀ c ∈ core.getLast?, isBlank c = false

theorem dropWhile_blank_append (hblank : ∀ c ∈ text, isBlank c)
    (hcore : ∀ c ∈ core.head?, isBlank c = false) :
    (text ++ core).dropWhile isBlank = core := by
  rw [List.dropWhile_append_of_pos hblank]
  cases core with
  | nil => rfl
  | cons c rest => exact List.dropWhile_cons_of_neg (by simp [hcore c rfl])

theorem exists_dropWhile_blank (text : List Char) :
    ∃ front, text = front ++ text.dropWhile isBlank ∧ (∀ c ∈ front, isBlank c) ∧
      ∀ c ∈ (text.dropWhile isBlank).head?, isBlank c = false := by
  refine ⟨text.takeWhile isBlank, List.takeWhile_append_dropWhile.symm, ?_, ?_⟩
  · exact List.all_eq_true.mp List.all_takeWhile
  · intro c hc
    have hstop := List.head?_dropWhile_not isBlank text
    simpa [Option.mem_def.mp hc] using hstop

theorem isCore_trim (text : List Char) : IsCore text (trim text) := by
  obtain ⟨front, htext, hfront, hhead⟩ := exists_dropWhile_blank text
  obtain ⟨back, hrest, hback, hlast⟩ := exists_dropWhile_blank (text.dropWhile isBlank).reverse
  have hsplit : text.dropWhile isBlank = trim text ++ back.reverse := by
    simpa [trim] using congrArg List.reverse hrest
  have hends : text = front ++ trim text ++ back.reverse := by
    rw [List.append_assoc, ← hsplit]
    exact htext
  refine ⟨⟨front, back.reverse, hends, hfront, by simpa using hback⟩,
    ?_, by simpa [trim] using hlast⟩
  intro c hc
  apply hhead
  simp [hsplit, Option.mem_def.mp hc]

/-- A text has one core only, whichever blank characters are told apart from it. -/
theorem IsCore.eq_trim (h : IsCore text core) : core = trim text := by
  obtain ⟨⟨front, back, rfl, hfront, hback⟩, hhead, hlast⟩ := h
  have hback' : ∀ c ∈ back.reverse, isBlank c := by simpa using hback
  have hlast' : ∀ c ∈ core.reverse.head?, isBlank c = false := by simpa using hlast
  have hends : trim (front ++ core ++ back) =
      ((core ++ back).reverse.dropWhile isBlank).reverse := by
    cases core with
    | nil =>
      have hblank : ∀ c ∈ front ++ [] ++ back, isBlank c := by
        simpa using fun c => Or.rec (hfront c) (hback c)
      rw [trim, List.dropWhile_eq_nil_iff.mpr hblank, List.nil_append,
        List.dropWhile_eq_nil_iff.mpr hback']
      rfl
    | cons c rest =>
      rw [trim, List.append_assoc, dropWhile_blank_append hfront (by simpa using hhead)]
  rw [hends, List.reverse_append, dropWhile_blank_append hback' hlast', List.reverse_reverse]

end Text

namespace CommandLine

/-! ### Numerals -/

def decimal (digits : List Char) : Nat :=
  Nat.ofDigits 10 (digits.reverse.map fun c => c.toNat - '0'.toNat)

theorem decimal_cons (c : Char) (digits : List Char) :
    decimal (c :: digits) = (c.toNat - '0'.toNat) * 10 ^ digits.length + decimal digits := by
  simp [decimal, Nat.ofDigits_append, Nat.add_comm, Nat.mul_comm]

theorem digit?_eq (c : Char) :
    digit? c = if c.isDigit then some (c.toNat - '0'.toNat) else none := by
  simp [digit?, Char.isDigit, UInt32.le_iff_toNat_le]

/-- **Digits are read as the number that they spell**, if it fits in 64 bits. -/
theorem readDigits_eq_ok_iff {value n : Nat} (hvalue : value < Nat.pow 2 64) (digits : List Char) :
    readDigits value digits = .ok n ↔
      (∀ c ∈ digits, c.isDigit) ∧ n = value * 10 ^ digits.length + decimal digits ∧
        n < Nat.pow 2 64 := by
  induction digits generalizing value with
  | nil =>
    have hempty : value * 10 ^ ([] : List Char).length + decimal [] = value := by simp [decimal]
    simp only [readDigits, Except.ok.injEq, hempty]
    constructor
    · rintro rfl
      exact ⟨by simp, rfl, hvalue⟩
    · rintro ⟨-, rfl, -⟩
      rfl
  | cons c rest ih =>
    rw [readDigits, digit?_eq, decimal_cons, List.forall_mem_cons, List.length_cons]
    generalize c.toNat - '0'.toNat = d
    cases hc : c.isDigit with
    | false => simp
    | true =>
      have hshift : value * 10 ^ (rest.length + 1) + (d * 10 ^ rest.length + decimal rest) =
          (10 * value + d) * 10 ^ rest.length + decimal rest := by
        rw [Nat.pow_succ, Nat.add_mul, Nat.add_assoc, Nat.mul_comm _ 10, Nat.mul_left_comm,
          Nat.mul_assoc]
      have hgrow : 10 * value + d ≤ (10 * value + d) * 10 ^ rest.length + decimal rest :=
        Nat.le_add_right_of_le (Nat.le_mul_of_pos_right _ (Nat.pow_pos (by decide)))
      simp only [if_true, hshift, true_and]
      split
      next hfits => exact ih hfits
      next hover =>
        -- a value only grows by further digits, so one that does not fit never comes to fit
        constructor
        · intro h
          cases h
        · rintro ⟨-, rfl, hn⟩
          omega

def IsNumeral (text : List Char) (value : Nat) : Prop :=
  ∃ sign digits, text = sign ++ digits ∧ (sign = [] ∨ sign = ['+']) ∧ digits ≠ [] ∧
    (∀ c ∈ digits, c.isDigit) ∧
    value = decimal digits

theorem isNumeral_plus_iff {digits : List Char} {value : Nat} :
    IsNumeral ('+' :: digits) value ↔ digits ≠ [] ∧ (∀ c ∈ digits, c.isDigit) ∧
      value = decimal digits := by
  constructor
  · rintro ⟨sign, digits', htext, rfl | rfl, h⟩
    · -- the plus sign itself is no digit
      obtain rfl : '+' :: digits = digits' := htext
      exact absurd (h.2.1 '+' List.mem_cons_self) (by decide)
    · obtain rfl : digits = digits' := by simpa using htext
      exact h
  · exact fun h => ⟨['+'], digits, rfl, .inr rfl, h⟩

theorem isNumeral_iff_of_head {text : List Char} {value : Nat} (hhead : text.head? ≠ some '+') :
    IsNumeral text value ↔ text ≠ [] ∧ (∀ c ∈ text, c.isDigit) ∧ value = decimal text := by
  constructor
  · rintro ⟨sign, digits, rfl, rfl | rfl, h⟩
    · exact h
    · exact absurd rfl hhead
  · exact fun h => ⟨[], text, rfl, .inl rfl, h⟩

/-- **A numeral is read as its value**, if it fits in 64 bits, and no other text is read as a
    number. -/
theorem readNumber_eq_ok_iff {text : List Char} {n : Nat} :
    readNumber text = .ok n ↔ IsNumeral text n ∧ n < Nat.pow 2 64 := by
  have hread : ∀ digits, readDigits 0 digits = .ok n ↔
      (∀ c ∈ digits, c.isDigit) ∧ n = decimal digits ∧ n < Nat.pow 2 64 := by
    simpa using readDigits_eq_ok_iff (n := n) (by decide : 0 < Nat.pow 2 64)
  fun_cases readNumber text with
  | case1 =>
    have hhead : ([] : List Char).head? ≠ some '+' := by simp
    simp [isNumeral_iff_of_head hhead]
  | case2 => simp [isNumeral_plus_iff]
  | case3 digits hdigits =>
    have hne : digits ≠ [] := hdigits
    simp only [hread, isNumeral_plus_iff, ne_eq, hne, not_false_eq_true, true_and, and_assoc]
  | case4 _ hnil _ hplus =>
    have hhead : text.head? ≠ some '+' := by
      rintro h
      obtain ⟨digits, rfl⟩ := List.head?_eq_some_iff.mp h
      exact hplus digits rfl
    have hne : text ≠ [] := hnil
    simp only [hread, isNumeral_iff_of_head hhead, ne_eq, hne, not_false_eq_true, true_and,
      and_assoc]

/-! ### Units -/

/-- Nothing, or a unit letter and the power of two that it stands for. -/
inductive Scales : List Char → Nat → Prop
  | none : Scales [] 0
  | kilo {c : Char} (h : c = 'k' ∨ c = 'K') : Scales [c] 10
  | mega {c : Char} (h : c = 'm' ∨ c = 'M') : Scales [c] 20
  | giga {c : Char} (h : c = 'g' ∨ c = 'G') : Scales [c] 30

theorem Scales.of_unitShift? {c : Char} {shift : Nat} (h : unitShift? c = some shift) :
    Scales [c] shift := by
  unfold unitShift? at h
  split at h
  next hc => cases h; exact .kilo hc
  next =>
  split at h
  next hc => cases h; exact .mega hc
  next =>
  split at h
  next hc => cases h; exact .giga hc
  next => cases h

theorem Scales.eq_nil_or_singleton {unit : List Char} {shift : Nat} (h : Scales unit shift) :
    unit = [] ∧ shift = 0 ∨ ∃ c, unit = [c] ∧ unitShift? c = some shift := by
  cases h with
  | none => exact .inl ⟨rfl, rfl⟩
  | kilo hc | mega hc | giga hc => obtain rfl | rfl := hc <;> exact .inr ⟨_, rfl, by decide⟩

/-- The text is a numeral of some value, and at most one unit letter behind it. -/
def IsSize (text : List Char) (value shift : Nat) : Prop :=
  ∃ numeral unit, text = numeral ++ unit ∧ IsNumeral numeral value ∧ Scales unit shift

theorem unitShift?_eq_none_of_isDigit {c : Char} (hc : c.isDigit) : unitShift? c = none := by
  have hne : ∀ d : Char, d.isDigit = false → c ≠ d := by
    rintro d hd rfl
    simp [hd] at hc
  simp [unitShift?, hne]

theorem IsNumeral.getLast?_bind_unitShift? {text : List Char} {value : Nat}
    (h : IsNumeral text value) :
    text.getLast?.bind unitShift? = none := by
  obtain ⟨sign, digits, rfl, -, hne, hdigits, -⟩ := h
  -- there is a digit, and the last of them comes last
  rw [List.getLast?_append, List.getLast?_eq_some_getLast hne]
  exact unitShift?_eq_none_of_isDigit (hdigits _ (List.getLast_mem hne))

/-- **A text can be taken apart as a size in one way only**, by looking at its last character. -/
theorem isSize_iff {text : List Char} {value shift : Nat} :
    IsSize text value shift ↔ IsNumeral (splitUnit text).1 value ∧ (splitUnit text).2 = shift := by
  constructor
  · rintro ⟨numeral, unit, rfl, hnumeral, hscales⟩
    obtain ⟨rfl, rfl⟩ | ⟨c, rfl, hc⟩ := hscales.eq_nil_or_singleton
    · simp [splitUnit, hnumeral.getLast?_bind_unitShift?, hnumeral]
    · simp [splitUnit, hc, hnumeral]
  · rintro ⟨hnumeral, rfl⟩
    unfold splitUnit at hnumeral ⊢
    split at hnumeral
    next shift hlast =>
      obtain ⟨c, hc, hshift⟩ := Option.bind_eq_some_iff.mp hlast
      exact ⟨_, [c], (List.dropLast_append_getLast? c hc).symm, hnumeral, .of_unitShift? hshift⟩
    next => exact ⟨text, [], by simp, hnumeral, .none⟩

/-! ### The last byte -/

def byteShift? (b : UInt8) : Option Nat :=
  if b = 'k'.toUInt8 ∨ b = 'K'.toUInt8 then some 10
  else if b = 'm'.toUInt8 ∨ b = 'M'.toUInt8 then some 20
  else if b = 'g'.toUInt8 ∨ b = 'G'.toUInt8 then some 30
  else none

theorem toNat_ofUInt8 (b : UInt8) : (Char.ofUInt8 b).toNat = b.toNat := UInt8.toNat_toUInt32 b

theorem eq_toUInt8_iff {b : UInt8} {d : Char} (hd : d.toNat < 128) :
    b = d.toUInt8 ↔ Char.ofUInt8 b = d := by
  have hbyte : d.toUInt8.toNat = d.toNat :=
    (UInt32.toNat_toUInt8 d.val).trans (Nat.mod_eq_of_lt (Nat.lt_trans hd (by decide)))
  rw [← UInt8.toNat_inj, ← Char.toNat_inj, hbyte, toNat_ofUInt8]

theorem byteShift?_eq (b : UInt8) : byteShift? b = unitShift? (Char.ofUInt8 b) := by
  simp (disch := decide) only [byteShift?, unitShift?, eq_toUInt8_iff]

theorem unitShift?_eq_none_of_le {c : Char} (hc : 128 ≤ c.toNat) : unitShift? c = none := by
  have hne : ∀ d : Char, d.toNat < 128 → c ≠ d := by
    rintro d hd rfl
    omega
  simp [unitShift?, hne]

/-- **A unit letter shows in the last byte of a character**, and then this byte is the whole
    character. -/
theorem exists_last_byte (c : Char) :
    ∃ front last, String.utf8EncodeChar c = front ++ [last] ∧ byteShift? last = unitShift? c ∧
      (byteShift? last ≠ none → front = []) := by
  by_cases hc : c.toNat < 128
  · have hone : String.utf8EncodeChar c = [] ++ [c.toUInt8] := if_pos (Nat.le_of_lt_succ hc)
    refine ⟨[], c.toUInt8, hone, ?_, fun _ => rfl⟩
    rw [byteShift?_eq, (eq_toUInt8_iff hc).mp rfl]
  · -- the last of several bytes is 128 or more, and so is the character
    have hmany : ∃ front,
        String.utf8EncodeChar c = front ++ [UInt8.ofNat (c.val.toNat % 64 + 128)] := by
      have hlong : ¬c.val.toNat ≤ 127 := fun h => hc (Nat.lt_succ_of_le h)
      unfold String.utf8EncodeChar
      simp only [if_neg hlong]
      split
      · exact ⟨[_], rfl⟩
      · split
        · exact ⟨[_, _], rfl⟩
        · exact ⟨[_, _, _], rfl⟩
    obtain ⟨front, hfront⟩ := hmany
    have hlast : byteShift? (UInt8.ofNat (c.val.toNat % 64 + 128)) = none := by
      rw [byteShift?_eq]
      apply unitShift?_eq_none_of_le
      rw [toNat_ofUInt8, UInt8.toNat_ofNat']
      omega
    refine ⟨front, _, hfront, ?_, fun h => absurd hlast h⟩
    rw [hlast, unitShift?_eq_none_of_le (Nat.le_of_not_lt hc)]

/-- The first bytes of a text as a text of their own, or nothing if they end within a character. -/
def cut? (text : String) (size : Nat) : Option String :=
  String.fromUTF8? (text.toByteArray.extract 0 size)

/-- The digits of a size and the power of two of its unit, by the last byte of the text. Nothing if
    a character is cut. -/
def splitUnitBytes? (text : String) : Option (String × Nat) :=
  match text.toByteArray.data.back?.bind byteShift? with
  | some shift => (cut? text (text.toByteArray.size - 1)).map fun digits => (digits, shift)
  | none => some (text, 0)

theorem cut?_append (core rest : List Char) :
    cut? (String.ofList (core ++ rest)) core.utf8Encode.size = some (String.ofList core) := by
  rw [cut?, String.toByteArray_ofList, List.utf8Encode_append, ByteArray.extract_append_eq_left rfl,
    String.fromUTF8?, dif_pos ByteArray.isValidUTF8_utf8Encode]
  exact congrArg some (String.toByteArray_inj.mp String.toByteArray_ofList.symm)

/-- **The cut in front of a unit never falls into a character**, and leaves the same digits. -/
theorem splitUnitBytes?_ofList (core : List Char) :
    splitUnitBytes? (String.ofList core) = some (String.ofList (splitUnit core).1,
      (splitUnit core).2) := by
  obtain rfl | hne := eq_or_ne core []
  · rfl
  obtain ⟨init, c, rfl⟩ : ∃ init c, core = init ++ [c] :=
    ⟨_, _, (List.dropLast_append_getLast hne).symm⟩
  obtain ⟨front, last, hbytes, hshift, hsingle⟩ := exists_last_byte c
  have hback : (String.ofList (init ++ [c])).toByteArray.data.back? = some last := by
    simp [List.utf8Encode_singleton, hbytes, ByteArray.data_append]
  rw [splitUnitBytes?, hback, splitUnit, List.getLast?_concat]
  simp only [Option.bind_some, hshift]
  cases hunit : unitShift? c with
  | none => rfl
  | some shift =>
    obtain rfl := hsingle (by simp [hshift, hunit])
    have hsize : (String.ofList (init ++ [c])).toByteArray.size - 1 = init.utf8Encode.size := by
      simp [List.utf8Encode_singleton, hbytes]
    simp only [hsize, cut?_append, Option.map_some, List.dropLast_concat]

/-! ### Sizes in 64 bits -/

def checkedMul? (a b : UInt64) : Option UInt64 :=
  if a.toNat * b.toNat < Nat.pow 2 64 then some (a * b) else none

/-- A size, with its unit cut off between two bytes and its number and factor in 64 bits. Nothing if
    a character is cut. -/
def parseSizeBytes? (text : String) : Option (Except SizeError UInt64) :=
  let trimmed := String.ofList (Text.trim text.toList)
  (splitUnitBytes? trimmed).map fun (digits, shift) =>
    match readNumber digits.toList with
    | .error fault => .error (.invalid trimmed fault)
    | .ok n =>
      match checkedMul? (UInt64.ofNat n) (1 <<< UInt64.ofNat shift) with
      | some size => .ok size
      | none => .error (.tooLarge trimmed)

theorem checkedMul?_toNat (a b : UInt64) :
    (checkedMul? a b).map UInt64.toNat =
      if a.toNat * b.toNat < Nat.pow 2 64 then some (a.toNat * b.toNat) else none := by
  unfold checkedMul?
  split
  next hfits => exact congrArg some (by rw [UInt64.toNat_mul]; exact Nat.mod_eq_of_lt hfits)
  next => rfl

theorem toNat_one_shiftLeft {shift : Nat} (h : shift < 64) :
    ((1 : UInt64) <<< UInt64.ofNat shift).toNat = Nat.pow 2 shift := by
  have hpow : 2 ^ shift < 2 ^ 64 := Nat.pow_lt_pow_right (by decide) h
  have hwide : shift % 2 ^ 64 % 64 = shift := by omega
  rw [UInt64.toNat_shiftLeft, UInt64.toNat_ofNat', hwide, UInt64.toNat_one, Nat.shiftLeft_eq,
    Nat.one_mul]
  exact Nat.mod_eq_of_lt hpow

theorem splitUnit_shift_lt (text : List Char) : (splitUnit text).2 < 64 := by
  unfold splitUnit
  split
  next shift hlast =>
    obtain ⟨c, -, hshift⟩ := Option.bind_eq_some_iff.mp hlast
    cases Scales.of_unitShift? hshift <;> simp
  next => simp

/-- **Cuts between bytes and products of 64 bits give the same size** as characters and numbers
    without a bound. -/
theorem parseSizeBytes?_eq (text : String) :
    (parseSizeBytes? text).map (Except.map UInt64.toNat) = some (parseSize text) := by
  rw [parseSizeBytes?, parseSize, splitUnitBytes?_ofList]
  simp only [Option.map_some, String.toList_ofList]
  cases hread : readNumber (splitUnit (Text.trim text.toList)).1 with
  | error fault => rfl
  | ok n =>
    have hn : (UInt64.ofNat n).toNat = n :=
      UInt64.toNat_ofNat_of_lt' (readNumber_eq_ok_iff.mp hread).2
    have hfactor := toNat_one_shiftLeft (splitUnit_shift_lt (Text.trim text.toList))
    have hproduct :=
      checkedMul?_toNat (UInt64.ofNat n) (1 <<< UInt64.ofNat (splitUnit (Text.trim text.toList)).2)
    rw [hn, hfactor] at hproduct
    dsimp only
    split at hproduct
    next hfits =>
      obtain ⟨size, hsize, htoNat⟩ := Option.map_eq_some_iff.mp hproduct
      rw [hsize, if_pos hfits, ← htoNat]
      rfl
    next hover =>
      rw [Option.map_eq_none_iff.mp hproduct, if_neg hover]
      rfl

/-! ### The grammar -/

theorem isSize_and_fits_iff {text : List Char} {value shift : Nat} :
    IsSize text value shift ∧ value < Nat.pow 2 64 ↔
      readNumber (splitUnit text).1 = .ok value ∧ (splitUnit text).2 = shift := by
  rw [isSize_iff, readNumber_eq_ok_iff, and_right_comm]

/-- **Exactly the sizes are read, each as its exact number of bytes.** A text has one core, what is
    left of it without the blank characters at its ends. It is read as a number of bytes if the core
    is a size with digits that fit in 64 bits, and its value times the unit is that number and fits
    too. It is too large if only the product does not fit. Otherwise it is invalid. Read with a cut
    between two bytes and a product in 64 bits it comes to the same, and no character is cut. -/
theorem parseSize_grammar (text : String) :
    ∃ core, (∀ other, Text.IsCore text.toList other ↔ other = core) ∧
      (∀ n, parseSize text = .ok n ↔
        ∃ value shift, (IsSize core value shift ∧ value < Nat.pow 2 64) ∧
          n = value * Nat.pow 2 shift ∧ n < Nat.pow 2 64) ∧
      (parseSize text = .error (.tooLarge (String.ofList core)) ↔
        ∃ value shift, (IsSize core value shift ∧ value < Nat.pow 2 64) ∧
          Nat.pow 2 64 ≤ value * Nat.pow 2 shift) ∧
      ((∃ fault, parseSize text = .error (.invalid (String.ofList core) fault)) ↔
        ¬∃ value shift, IsSize core value shift ∧ value < Nat.pow 2 64) ∧
      (parseSizeBytes? text).map (Except.map UInt64.toNat) = some (parseSize text) := by
  have hcore : ∀ other, Text.IsCore text.toList other ↔ other = Text.trim text.toList := by
    intro other
    constructor
    · exact Text.IsCore.eq_trim
    · rintro rfl
      exact Text.isCore_trim _
  refine ⟨_, hcore, ?_⟩
  simp only [isSize_and_fits_iff]
  refine and_assoc.mp (and_assoc.mp ⟨?_, parseSizeBytes?_eq text⟩)
  simp only [parseSize]
  cases hread : readNumber (splitUnit (Text.trim text.toList)).1 with
  | error fault => simp
  | ok value =>
    -- the digits name one number, so the product alone decides
    dsimp only
    split
    next hfits =>
      have hexact : ∀ n, value * Nat.pow 2 (splitUnit (Text.trim text.toList)).2 = n ↔
          n = value * Nat.pow 2 (splitUnit (Text.trim text.toList)).2 ∧ n < Nat.pow 2 64 := by
        intro n
        constructor
        · rintro rfl
          exact ⟨rfl, hfits⟩
        · rintro ⟨rfl, -⟩
          rfl
      simpa using ⟨hexact, hfits⟩
    next hover => simpa using Nat.le_of_not_lt hover

end CommandLine

end StreamRelay
