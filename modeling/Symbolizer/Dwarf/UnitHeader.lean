import Symbolizer.Dwarf.Decoded
import Symbolizer.Dwarf.Encoding

/-! # Unit headers

The entries of a section come in units. A header states how its unit is encoded,
where its abbreviations are, and how long it is.
-/

namespace Symbolizer.Dwarf

structure UnitHeader where
  /-- Where the header starts in the section. -/
  offset : Nat
  encoding : Encoding
  /-- Where the unit's abbreviations start in their section. -/
  abbreviations : Nat
  /-- The size of the header, which is the offset of the first entry in the unit. -/
  size : Nat
  entries : Bytes
  deriving DecidableEq, Repr

namespace UnitHeader

/-- The size of the unit, header included. -/
def unitSize (header : UnitHeader) : Nat := header.size + header.entries.length

/-- Whether an offset of the section lies in the unit. -/
def covers (header : UnitHeader) (offset : Nat) : Bool :=
  header.offset ≤ offset && offset < header.offset + header.unitSize

/-- What follows the common part of a version 5 header, by the kind of unit. -/
def kindDetails (format : Format) : Nat → Reader Unit
  | 1 | 3 => pure ()
  | 2 | 6 => do
    Reader.skip 8
    Reader.skip format.offsetSize
  | 4 | 5 => Reader.skip 8
  | _ => throw .unitType

def read (offset : Nat) : Reader UnitHeader :=
  Reader.sized fun format => do
    let whole ← get
    let version ← Reader.word 2
    if version < 2 ∨ 5 < version then throw .unknownVersion
    let (abbreviations, addressSize) ←
      if version = 5 then do
        let kind ← Reader.byte
        let addressSize ← AddressSize.read
        let abbreviations ← format.offset
        kindDetails format kind
        pure (abbreviations, addressSize)
      else do
        let abbreviations ← format.offset
        let addressSize ← AddressSize.read
        pure (abbreviations, addressSize)
    let entries ← Reader.remaining
    pure ⟨offset, ⟨format, version, addressSize⟩, abbreviations,
      format.lengthSize + (whole.length - entries.length), entries⟩

/-- The headers of a section, one after another to its end. -/
def readAll (info : Bytes) : Decoded UnitHeader :=
  .unfold (fun offset => some <$> read offset) 0 info

/-- The header at an offset of the section. -/
def readAt (info : Bytes) (offset : Nat) : Except DecodeError UnitHeader :=
  if info.length < offset then .error .endOfInput
  else Prod.fst <$> (read offset).run (info.drop offset)

end UnitHeader

end Symbolizer.Dwarf
