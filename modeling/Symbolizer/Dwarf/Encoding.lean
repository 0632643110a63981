import Symbolizer.Dwarf.Reader

/-! # Encoding of a unit

How wide offsets and addresses are, and the arithmetic on addresses of that width.
-/

namespace Symbolizer.Dwarf

inductive Format
  | dwarf32
  | dwarf64
  deriving DecidableEq, Repr

namespace Format

def offsetSize : Format → Nat
  | dwarf32 => 4
  | dwarf64 => 8

/-- The size of a length field, with the mark of the wide format. -/
def lengthSize : Format → Nat
  | dwarf32 => 4
  | dwarf64 => 12

def offset (format : Format) : Reader Nat := Reader.word format.offsetSize

end Format

inductive AddressSize
  | one
  | two
  | four
  | eight
  deriving DecidableEq, Repr

namespace AddressSize

def bytes : AddressSize → Nat
  | one => 1
  | two => 2
  | four => 4
  | eight => 8

def read : Reader AddressSize := do
  match ← Reader.byte with
  | 1 => pure one
  | 2 => pure two
  | 4 => pure four
  | 8 => pure eight
  | _ => throw .addressSize

def address (size : AddressSize) : Reader Address := UInt64.ofNat <$> Reader.word size.bytes

/-- One more than the largest address. -/
def bound : AddressSize → Nat
  | one => UInt8.size
  | two => UInt16.size
  | four => UInt32.size
  | eight => UInt64.size

/-- The two largest addresses stand for code that the linker has dropped. -/
def isTombstone (size : AddressSize) (address : Address) : Bool :=
  size.bound - 2 ≤ address.toNat

def add (size : AddressSize) (address length : UInt64) : Except DecodeError Address :=
  if address.toNat + length.toNat < size.bound then .ok (address + length)
  else .error .addressOverflow

end AddressSize

structure Encoding where
  format : Format
  version : Nat
  addressSize : AddressSize
  deriving DecidableEq, Repr

namespace Reader

/-- A length field, which also tells the format. -/
def initialLength : Reader (Format × Nat) := do
  let length ← word 4
  if length < 0xfffffff0 then pure (.dwarf32, length)
  else if length = 0xffffffff then return (.dwarf64, ← word 8)
  else throw .reservedLength

/-- Reads a length field and then, from the bytes that it covers alone, a structure. -/
def sized {α : Type} (inner : Format → Reader α) : Reader α := do
  let (format, length) ← initialLength
  within length (inner format)

/-- The size of segment numbers, of which none are supported. -/
def segmentSize : Reader Unit := do
  if (← byte) ≠ 0 then throw .segmentSize

end Reader

end Symbolizer.Dwarf
