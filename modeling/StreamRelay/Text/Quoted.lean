/-
  StreamRelay/Text/Quoted.lean
  ============================
  **Text between quotes, with escapes for what could not be read.**
-/
import StreamRelay.Text.Printable

namespace StreamRelay.Text

def hexNumber (n : Nat) : List Char := Nat.toDigits 16 n

def marks : List Nat := [0x22, 0x5c]

/-- A character as it stands between double quotes: a double quote and the backslash behind a
    backslash, the usual letters for tab, line feed, carriage return and NUL, and the code point in
    braces for whatever is not shown as it is. -/
def quotedChar (c : Char) : List Char :=
  if c = '\x00' then ['\\', '0']
  else if c = '\t' then ['\\', 't']
  else if c = '\n' then ['\\', 'n']
  else if c = '\r' then ['\\', 'r']
  else if c.toNat ∈ marks then ['\\', c]
  else if isPrintable c then [c]
  else ['\\', 'u', '\x7b'] ++ hexNumber c.toNat ++ ['\x7d']

def quoted (text : String) : String :=
  "\"" ++ String.ofList (text.toList.flatMap quotedChar) ++ "\""

end StreamRelay.Text
