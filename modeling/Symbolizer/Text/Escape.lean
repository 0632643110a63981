import Symbolizer.Text.Hex

/-! # Printable form of bytes

Every byte of a name becomes printable ASCII: tab, line ends, quotes and the
backslash by a mnemonic, other bytes outside the printable range by two digits.
-/

namespace Symbolizer.Escape

def byte (b : UInt8) : List Char :=
  if b = 0x09 then ['\\', 't']
  else if b = 0x0a then ['\\', 'n']
  else if b = 0x0d then ['\\', 'r']
  else if b = 0x22 then ['\\', '"']
  else if b = 0x27 then ['\\', '\'']
  else if b = 0x5c then ['\\', '\\']
  else if 0x20 ≤ b ∧ b ≤ 0x7e then [Char.ofNat b.toNat]
  else '\\' :: 'x' :: Hex.fixedDigits 2 b.toNat

def chars (name : Bytes) : List Char := name.flatMap byte

def text (name : Bytes) : String := String.ofList (chars name)

end Symbolizer.Escape
