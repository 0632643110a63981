import Symbolizer.Bytes

/-! # Debug sections -/

namespace Symbolizer.Dwarf

/-- The debug sections of an image. All others count as empty. -/
structure Sections where
  addressRanges : Bytes
  abbreviations : Bytes
  info : Bytes
  lines : Bytes
  strings : Bytes
  publicNames : Bytes
  publicTypes : Bytes
  deriving DecidableEq, Repr

def Sections.empty : Sections := ⟨[], [], [], [], [], [], []⟩

end Symbolizer.Dwarf
