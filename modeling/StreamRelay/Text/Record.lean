/-
  StreamRelay/Text/Record.lean
  ============================
  **Text in a record on standard error.**

  A record may quote a path, and a path may hold characters that steer a terminal. Those that can
  start or end a control sequence are spelled out; all others stay as they are, tabs and line ends
  too.
-/
import StreamRelay.Bytes
import StreamRelay.Text.Quoted

namespace StreamRelay.Text

/-- The code points below 128 that steer a terminal: bell, backspace, form feed, escape, delete. -/
def steering : List Nat := [0x07, 0x08, 0x0c, 0x1b, 0x7f]

/-- A character in a record: one that steers a terminal is spelled as its code point. -/
def recordChar (c : Char) : List Char :=
  if c.toNat ∈ steering then '\\' :: 'x' :: hexDigits c.toNat.toUInt8
  else if 0x80 ≤ c.toNat ∧ c.toNat ≤ 0x9f then ['\\', 'u', '\x7b'] ++ hexNumber c.toNat ++ ['\x7d']
  else [c]

def record (text : String) : String := String.ofList (text.toList.flatMap recordChar)

end StreamRelay.Text
