import Symbolizer.Dwarf.Line.Row
import Symbolizer.Dwarf.NameIndex
import Symbolizer.Dwarf.Subprogram
import Symbolizer.Engine

/-! # Lookups on debug sections

The six primitive lookups, read straight from the sections. Nothing is kept between
them.
-/

namespace Symbolizer.Dwarf

namespace Sections

variable (sections : Sections)

/-- The unit whose indexed ranges cover an address, or else the first one whose own code does.
The index is optional. -/
def unitForAddress (address : Address) : Lookup Nat := do
  let indexed ← Lookup.search sections.indexedRanges fun indexed =>
    pure (if indexed.range.contains address then some indexed.unit else none)
  match indexed with
  | some unit => pure unit
  | none =>
    Lookup.tell (.notIndexed address)
    Lookup.orNotFound <| Lookup.search sections.units fun unit => do
      let range ← Lookup.decode unit.root.range?
      pure (if range.any (·.contains address) then some unit.header.offset else none)

def fileForUnit (offset : Nat) : Lookup SourceFile := do
  let unit ← Lookup.decode (sections.unitAt offset)
  match unit.name, unit.lineProgram with
  | none, _ => Lookup.fail .notFound
  | some _, none => Lookup.fail .missingLineProgram
  | some name, some lineProgram => pure ⟨name, lineProgram⟩

/-- The line of the first row that describes an address, in a program opened without its unit. -/
def lineForAddress (address : Address) (offset : Nat) : Lookup UInt32 := do
  let program ← Lookup.decode (LineProgram.decodeAt sections.lines .eight offset)
  let rows := program.rows
  match LineRow.lineAt address rows.items, rows.fault with
  | some line, _ => pure line
  | none, some e => Lookup.fail (.format e)
  | none, none => Lookup.fail .notFound

/-- The first subprogram that contains an address and has a name. -/
def functionForAddress (address : Address) (offset : Nat) : Lookup Function := do
  let unit ← Lookup.decode (sections.unitAt offset)
  Lookup.orNotFound <| Lookup.search unit.subprograms fun subprogram => do
    match ← subprogram.range? (·.contains address) with
    | none => pure none
    | some range =>
      match ← Lookup.ofExcept (sections.subprogramName unit subprogram) with
      | none =>
        Lookup.tell (.unnamedSubprogram address)
        pure none
      | some name =>
        let start ← Lookup.decode subprogram.start?
        pure (some ⟨name, start.getD range.first⟩)

/-- The subprogram that the index names first and that has an address. Variables are listed
there too and are passed over. -/
def addressByIndex (name : Bytes) : Lookup Address :=
  Lookup.orNotFound <| Lookup.search sections.indexedNames fun indexed => do
    if indexed.name ≠ name then pure none
    else
      let unit ← Lookup.decode (sections.unitAt indexed.unit)
      let entry ← Lookup.decode (unit.entryAt indexed.entry)
      match ← Lookup.decode (Subprogram.ofEntry entry) with
      | none =>
        Lookup.tell (.notFunction name)
        pure none
      | some subprogram => subprogram.startOrFirst?

/-- The first subprogram of a name that has an address. -/
def addressByScan (name : Bytes) : Lookup Address :=
  Lookup.orNotFound <| Lookup.search sections.units fun unit =>
    Lookup.search unit.subprograms fun subprogram => do
      if (← Lookup.ofExcept (sections.subprogramName unit subprogram)) ≠ some name then pure none
      else subprogram.startOrFirst?

def engine : Engine where
  unitForAddress := sections.unitForAddress
  fileForUnit := sections.fileForUnit
  lineForAddress := sections.lineForAddress
  functionForAddress := sections.functionForAddress
  addressByIndex := sections.addressByIndex
  addressByScan := sections.addressByScan

end Sections

end Symbolizer.Dwarf
