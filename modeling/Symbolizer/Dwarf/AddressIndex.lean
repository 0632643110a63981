import Symbolizer.Dwarf.Decoded
import Symbolizer.Dwarf.Encoding
import Symbolizer.Dwarf.Sections

/-! # The index from addresses to units

A set lists the address ranges of one unit. Its tuples start at a multiple of their
own size and end where no whole one is left. A pair of zeros is passed over, as is a
range of code that the linker dropped.
-/

namespace Symbolizer.Dwarf

/-- The addresses from `first` up to `limit`; none where those are inverted. -/
structure AddressRange where
  first : Address
  limit : Address
  deriving DecidableEq, Repr

def AddressRange.contains (range : AddressRange) (address : Address) : Bool :=
  range.first ≤ address && address < range.limit

structure IndexedRange where
  /-- Where the header of the unit starts. -/
  unit : Nat
  range : AddressRange
  deriving DecidableEq, Repr

namespace AddressIndex

structure Set where
  unit : Nat
  addressSize : AddressSize
  tuples : Bytes

/-- The size of the header of a set, before any padding. -/
def headerSize (format : Format) : Nat := format.lengthSize + 2 + format.offsetSize + 2

def padding (format : Format) (addressSize : AddressSize) : Nat :=
  let tuple := 2 * addressSize.bytes
  (tuple - headerSize format % tuple) % tuple

def Set.read : Reader Set :=
  Reader.sized fun format => do
    let version ← Reader.word 2
    if version ≠ 2 ∧ version ≠ 3 then throw .unknownVersion
    let unit ← format.offset
    let addressSize ← AddressSize.read
    Reader.segmentSize
    Reader.skip (padding format addressSize)
    return ⟨unit, addressSize, ← Reader.remaining⟩

/-- A range, unless the tuple is to be passed over. -/
def Set.readTuple (set : Set) : Reader (Option IndexedRange) := do
  let first ← set.addressSize.address
  let length ← set.addressSize.address
  if first = 0 ∧ length = 0 then pure none
  else if set.addressSize.isTombstone first then pure none
  else
    let limit ← set.addressSize.add first length
    pure (some ⟨set.unit, first, limit⟩)

def Set.ranges (set : Set) : Decoded IndexedRange :=
  let tuple := 2 * set.addressSize.bytes
  let whole := set.tuples.take (set.tuples.length / tuple * tuple)
  (Decoded.unfold (fun _ => some <$> set.readTuple) 0 whole).filterMap id

end AddressIndex

/-- The ranges of all sets, in order. -/
def Sections.indexedRanges (sections : Sections) : Decoded IndexedRange :=
  (Decoded.unfold (fun _ => some <$> AddressIndex.Set.read) 0 sections.addressRanges).flatMap
    AddressIndex.Set.ranges

end Symbolizer.Dwarf
