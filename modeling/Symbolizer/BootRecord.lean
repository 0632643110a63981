import Symbolizer.Symbols

/-! # Boot records

The boot stage notes where in memory it has put the parts of an image, and the image is
what lies there. It may not know where the names of symbols end. They are then read from
all memory behind their start, each up to its zero byte.
-/

namespace Symbolizer

/-- The byte at each address. -/
abbrev Memory := Address → UInt8

namespace Memory

/-- Bytes one after another from an address on. -/
def read (memory : Memory) : (address count : Nat) → Bytes
  | _, 0 => []
  | address, count + 1 => memory (.ofNat address) :: memory.read (address + 1) count

/-- All bytes from an address to the end of memory. -/
def readOn (memory : Memory) (address : Nat) : Bytes :=
  memory.read address (UInt64.size - address)

/-- The bytes from an address to the first zero byte, however far away it is. -/
def textAt (memory : Memory) (address : Nat) : Option Bytes :=
  if address < UInt64.size then
    if memory (.ofNat address) = 0 then some []
    else (memory.textAt (address + 1)).map (memory (.ofNat address) :: ·)
  else none
termination_by UInt64.size - address

end Memory

/-- What lies in a range. -/
def SectionRange.contents (memory : Memory) (range : SectionRange) : Bytes :=
  memory.read range.first.toNat range.size

structure BootRecord where
  sections : SectionKind → SectionRange
  symbols : SectionRange
  symbolNames : SectionRange

namespace BootRecord

def names (memory : Memory) (record : BootRecord) : SymbolNames :=
  if record.symbolNames.limitKnown then .table (record.symbolNames.contents memory)
  else .memory (memory.readOn record.symbolNames.first.toNat)

def image (memory : Memory) (record : BootRecord) : Image where
  sections := .ofKinds fun kind => (record.sections kind).contents memory
  symbols := record.symbols.contents memory
  symbolNames := record.names memory

/-- The record of a boot stage that does not know where the names end. -/
def withoutNamesLimit (record : BootRecord) : BootRecord :=
  { record with symbolNames.limit := 0 }

end BootRecord

end Symbolizer
