import Symbolizer.Dwarf.Sections

/-! # Loaded images

The boot stage hands over where the sections of the loaded image lie. Their ranges are
copied as they are, never checked: an inverted range reads as empty.
-/

namespace Symbolizer

/-- Debug sections in the order of the boot record. -/
inductive SectionKind
  | addressRanges
  | abbreviations
  | info
  | lines
  | strings
  | publicNames
  | publicTypes
  deriving DecidableEq, Repr

namespace SectionKind

def all : List SectionKind :=
  [addressRanges, abbreviations, info, lines, strings, publicNames, publicTypes]

def name : SectionKind → String
  | addressRanges => ".debug_aranges"
  | abbreviations => ".debug_abbrev"
  | info => ".debug_info"
  | lines => ".debug_line"
  | strings => ".debug_str"
  | publicNames => ".debug_pubnames"
  | publicTypes => ".debug_pubtypes"

end SectionKind

namespace Dwarf.Sections

def get (sections : Sections) : SectionKind → Bytes
  | .addressRanges => sections.addressRanges
  | .abbreviations => sections.abbreviations
  | .info => sections.info
  | .lines => sections.lines
  | .strings => sections.strings
  | .publicNames => sections.publicNames
  | .publicTypes => sections.publicTypes

def ofKinds (contents : SectionKind → Bytes) : Sections where
  addressRanges := contents .addressRanges
  abbreviations := contents .abbreviations
  info := contents .info
  lines := contents .lines
  strings := contents .strings
  publicNames := contents .publicNames
  publicTypes := contents .publicTypes

theorem get_ofKinds (contents : SectionKind → Bytes) (kind : SectionKind) :
    (ofKinds contents).get kind = contents kind := by
  cases kind <;> rfl

end Dwarf.Sections

/-- Where a section lies in memory. -/
structure SectionRange where
  first : Address
  limit : Address
  deriving DecidableEq, Repr

namespace SectionRange

def size (range : SectionRange) : Nat := range.limit.toNat - range.first.toNat

def isEmpty (range : SectionRange) : Bool := range.size == 0

/-- A table whose limit is zero has an end that is not known, unless it is missing altogether. -/
def limitKnown (range : SectionRange) : Bool := range.limit ≠ 0 || range.first = 0

end SectionRange

/-- Where symbol names are read from. -/
inductive SymbolNames
  | table (bytes : Bytes)
  /-- A table whose end is not known: all memory from its start on. -/
  | memory (bytes : Bytes)
  deriving DecidableEq, Repr

structure Image where
  sections : Dwarf.Sections
  symbols : Bytes
  symbolNames : SymbolNames
  deriving DecidableEq, Repr

def Image.empty : Image := ⟨.empty, [], .table []⟩

end Symbolizer
