import Symbolizer.Dwarf.Decoded
import Symbolizer.Dwarf.Encoding
import Symbolizer.Dwarf.Sections

/-! # The index of global names

A set lists names of one unit and where their entries are in it, up to an offset of
zero or the end of the set.
-/

namespace Symbolizer.Dwarf

structure IndexedName where
  /-- Where the header of the unit starts. -/
  unit : Nat
  /-- Where the entry starts in the unit. -/
  entry : Nat
  name : Bytes
  deriving DecidableEq, Repr

namespace NameIndex

structure Set where
  format : Format
  unit : Nat
  names : Bytes

def Set.read : Reader Set :=
  Reader.sized fun format => do
    if (← Reader.word 2) ≠ 2 then throw .unknownVersion
    let unit ← format.offset
    discard format.offset
    return ⟨format, unit, ← Reader.remaining⟩

def Set.readName (set : Set) : Reader (Option IndexedName) := do
  let entry ← set.format.offset
  if entry = 0 then pure none
  else return some ⟨set.unit, entry, ← Reader.name⟩

def Set.indexedNames (set : Set) : Decoded IndexedName :=
  .unfold (fun _ => set.readName) 0 set.names

end NameIndex

/-- The names of all sets, in order. -/
def Sections.indexedNames (sections : Sections) : Decoded IndexedName :=
  (Decoded.unfold (fun _ => some <$> NameIndex.Set.read) 0 sections.publicNames).flatMap
    NameIndex.Set.indexedNames

end Symbolizer.Dwarf
