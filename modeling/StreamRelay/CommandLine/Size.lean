/-
  StreamRelay/CommandLine/Size.lean
  =================================
  **Byte counts as they are typed: `512`, `4k`, `2M`, `1g`.**

  A size is a decimal number below 2⁶⁴ with an optional plus sign, and an optional unit letter
  behind it that multiplies by a power of 1024. Blank characters around it do not count.
-/
import StreamRelay.Text.Blank

namespace StreamRelay.CommandLine

/-! ### Decimal numbers -/

inductive NumberFault where
  | empty
  | invalidDigit
  | overflow
deriving DecidableEq, Repr

def NumberFault.message : NumberFault → String
  | .empty => "cannot parse integer from empty string"
  | .invalidDigit => "invalid digit found in string"
  | .overflow => "number too large to fit in target type"

def digit? (c : Char) : Option Nat :=
  if '0'.toNat ≤ c.toNat ∧ c.toNat ≤ '9'.toNat then some (c.toNat - '0'.toNat) else none

/-- Read digits behind those already read; the leftmost fault counts. -/
def readDigits (value : Nat) : List Char → Except NumberFault Nat
  | [] => .ok value
  | c :: rest =>
    match digit? c with
    | none => .error .invalidDigit
    | some d =>
      if 10 * value + d < Nat.pow 2 64 then readDigits (10 * value + d) rest
      else .error .overflow

/-- A decimal number below 2⁶⁴, with an optional plus sign. -/
def readNumber : List Char → Except NumberFault Nat
  | [] => .error .empty
  | '+' :: [] => .error .invalidDigit
  | '+' :: digits => readDigits 0 digits
  | digits => readDigits 0 digits

/-! ### Sizes -/

/-- Why a text is no size: its number cannot be read, or the size does not fit in 64 bits. Both tell
    the text, trimmed. -/
inductive SizeError where
  | invalid (text : String) (fault : NumberFault)
  | tooLarge (text : String)
deriving DecidableEq, Repr

def SizeError.message : SizeError → String
  | .invalid text fault => "invalid size '" ++ text ++ "': " ++ fault.message
  | .tooLarge text => "size '" ++ text ++ "' is too large"

def unitShift? (c : Char) : Option Nat :=
  if c = 'k' ∨ c = 'K' then some 10
  else if c = 'm' ∨ c = 'M' then some 20
  else if c = 'g' ∨ c = 'G' then some 30
  else none

def splitUnit (text : List Char) : List Char × Nat :=
  match text.getLast?.bind unitShift? with
  | some shift => (text.dropLast, shift)
  | none => (text, 0)

/-- **Read a size.** -/
def parseSize (text : String) : Except SizeError Nat :=
  let trimmed := Text.trim text.toList
  let (digits, shift) := splitUnit trimmed
  match readNumber digits with
  | .error fault => .error (.invalid (String.ofList trimmed) fault)
  | .ok n =>
    if n * Nat.pow 2 shift < Nat.pow 2 64 then .ok (n * Nat.pow 2 shift)
    else .error (.tooLarge (String.ofList trimmed))

end StreamRelay.CommandLine
