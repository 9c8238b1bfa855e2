/-
  StreamRelay/CommandLine/Seconds.lean
  ====================================
  **Seconds as they are typed: `2`, `0.5`, `1e-3`.**

  The text is a decimal literal, or a word for infinity or for no number. Its value is rounded to
  binary64 first and then to whole nanoseconds, each time to the nearest with ties to even.
-/
import StreamRelay.Clock
import StreamRelay.CommandLine.Size

namespace StreamRelay.CommandLine

/-! ### Decimal literals -/

/-- A decimal literal without its sign: `significand · 10 ^ exponent`. -/
structure Literal where
  significand : Nat
  exponent : Int
deriving DecidableEq, Repr

def spanDigits (text : List Char) : List Nat × List Char :=
  match text with
  | [] => ([], [])
  | c :: rest =>
    match digit? c with
    | none => ([], c :: rest)
    | some d =>
      let (digits, rest) := spanDigits rest
      (d :: digits, rest)

def ofDigits (digits : List Nat) : Nat := digits.foldl (fun n d => 10 * n + d) 0

/-- The exponent at the end of a literal: none, or the letter, an optional sign and digits. -/
def readExponent : List Char → Option Int
  | [] => some 0
  | c :: rest =>
    if c = 'e' ∨ c = 'E' then
      let (negative, rest) := match rest with
        | '-' :: rest => (true, rest)
        | '+' :: rest => (false, rest)
        | rest => (false, rest)
      match spanDigits rest with
      | ([], _) => none
      | (digits, []) => some (if negative then -(ofDigits digits : Int) else ofDigits digits)
      | _ => none
    else none

/-- A literal: digits, a point and digits, of which one is there at least, and an exponent. -/
def readLiteral (text : List Char) : Option Literal :=
  let (whole, rest) := spanDigits text
  let (fraction, rest) := match rest with
    | '.' :: rest => spanDigits rest
    | rest => ([], rest)
  if whole.isEmpty && fraction.isEmpty then none
  else (readExponent rest).map fun exponent =>
    ⟨ofDigits (whole ++ fraction), exponent - fraction.length⟩

def exponentBound : Int := 400

/-- The value of a literal as a binary64 number, `none` if it is infinite. A literal far out of
    range is not expanded. -/
def Literal.value? (l : Literal) : Option Binary64 :=
  let magnitude := l.exponent + (Nat.toDigits 10 l.significand).length
  if l.significand = 0 ∨ magnitude < -exponentBound then some ⟨0⟩
  else if exponentBound < magnitude then none
  else
    let x := if 0 ≤ l.exponent then Binary64.ofNat (l.significand * Nat.pow 10 l.exponent.toNat)
      else Binary64.ofRatio l.significand (Nat.pow 10 (-l.exponent).toNat)
    if x.isInfinite then none else some x

/-! ### Seconds -/

/-- What a text stands for: a signed finite number, infinity with a sign, or no number. -/
inductive RealText where
  | finite (negative : Bool) (value : Binary64)
  | infinite (negative : Bool)
  | notANumber
deriving DecidableEq, Repr

def lowercase (c : Char) : Char := c.toLower

def readMagnitude (negative : Bool) (text : List Char) : Option RealText :=
  let word := text.map lowercase
  if word = "inf".toList ∨ word = "infinity".toList then some (.infinite negative)
  else if word = "nan".toList then some .notANumber
  else (readLiteral text).map fun l =>
    match l.value? with
    | some value => .finite negative value
    | none => .infinite negative

def readReal : List Char → Option RealText
  | '-' :: rest => readMagnitude true rest
  | '+' :: rest => readMagnitude false rest
  | text => readMagnitude false text

/-- Why a text is no span of time. Each tells the text as it was typed. -/
inductive SecondsError where
  | empty (text : String)
  | invalid (text : String)
  | negative (text : String)
  | outOfRange (text : String)
deriving DecidableEq, Repr

def SecondsError.message : SecondsError → String
  | .empty text => "invalid seconds '" ++ text ++ "': cannot parse float from empty string"
  | .invalid text => "invalid seconds '" ++ text ++ "': invalid float literal"
  | .negative text =>
      "invalid seconds '" ++ text ++
        "': cannot convert float seconds to Duration: value is negative"
  | .outOfRange text =>
    "invalid seconds '" ++ text ++
      "': cannot convert float seconds to Duration: value is either too big or NaN"

/-- **Read seconds.** A value below zero is refused, unless it rounds to zero; whole seconds must
    fit in 64 bits. -/
def parseSeconds (text : String) : Except SecondsError Duration :=
  match Text.trim text.toList with
  | [] => .error (.empty text)
  | trimmed =>
    match readReal trimmed with
    | none => .error (.invalid text)
    | some .notANumber => .error (.outOfRange text)
    | some (.infinite negative) => .error (if negative then .negative text else .outOfRange text)
    | some (.finite negative value) =>
      if negative && value.units != 0 then .error (.negative text)
      else if Nat.pow 2 64 ≤ value.floor then .error (.outOfRange text)
      else .ok (value.roundParts Duration.perSecond)

end StreamRelay.CommandLine
