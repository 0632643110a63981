import Symbolizer.Dwarf.Attribute

/-! # Debug entries

An entry is a tag and its attributes, read with the abbreviation that its code names.
An attribute that cannot be read leaves an entry with the attributes before it.
-/

namespace Symbolizer.Dwarf

def subprogramTag : Nat := 0x2e

structure Entry where
  /-- Where the entry starts, counted from the start of its unit. -/
  offset : Nat
  tag : Nat
  attributes : Decoded Attribute
  deriving DecidableEq, Repr

namespace Entry

/-- An entry, or none where the code is zero. -/
def read (encoding : Encoding) (table : List Abbreviation) (offset : Nat) :
    Reader (Option Entry) := do
  let code ← Reader.uleb
  if code = 0 then pure none
  else match table.find? (·.code = code) with
    | none => throw .unknownCode
    | some abbreviation =>
      let bytes ← Reader.remaining
      let (attributes, rest) := Attribute.readAll encoding abbreviation.attributes bytes
      set rest
      pure (some ⟨offset, abbreviation.tag, attributes⟩)

/-- The entries in document order, without the zero codes between them. To get past an entry,
all its attributes have to be readable. -/
def readAll (encoding : Encoding) (table : List Abbreviation) (start : Nat) (bytes : Bytes) :
    Decoded Entry :=
  ((Decoded.unfold (fun offset => some <$> read encoding table offset) start bytes).filterMap
    id).flatMap fun entry => ⟨[entry], entry.attributes.fault⟩

end Entry

end Symbolizer.Dwarf
