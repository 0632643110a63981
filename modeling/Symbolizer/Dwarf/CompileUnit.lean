import Symbolizer.Dwarf.Entry
import Symbolizer.Dwarf.Line.Program
import Symbolizer.Dwarf.Sections
import Symbolizer.Dwarf.UnitHeader

/-! # Compile units

Decoding a unit reads its abbreviations and its first entry, which names the source
file and says where the line program is. That program's header has to decode too.
-/

namespace Symbolizer.Dwarf

structure CompileUnit where
  header : UnitHeader
  table : List Abbreviation
  root : Entry
  /-- The source file, if the first entry names one that can be read. -/
  name : Option Bytes
  /-- Where the line program is. -/
  lineProgram : Option Nat
  deriving DecidableEq, Repr

/-- The text of a string value. -/
def Sections.string (sections : Sections) : Value → Except DecodeError Bytes
  | .string text => .ok text
  | .stringOffset offset =>
    match Bytes.splitZero (sections.strings.drop offset) with
    | some (text, _) => .ok text
    | none => .error .endOfInput
  | .absentString => .error .endOfInput
  | _ => .error .expectedString

/-- The address that a value states, if it is of a form that states one. Indexes lead into a
section that is not at hand. -/
def Value.address? : Value → Except DecodeError (Option Address)
  | .address a => .ok (some a)
  | .addressIndex => .error .endOfInput
  | .constant _ | .flag _ | .sectionOffset _ | .string _ | .stringOffset _ | .absentString
  | .unitReference _ | .sectionReference _ | .rangeListIndex | .unused => .ok none

def Value.sectionOffset? : Value → Option Nat
  | .sectionOffset offset => some offset
  | _ => none

/-- The last attribute of a kind that is a section offset. -/
def Attribute.lastSectionOffset (target : AttributeName) (attributes : List Attribute) :
    Option Nat :=
  (attributes.filterMap fun a => if a.name = target then a.value.sectionOffset? else none).getLast?

namespace UnitHeader

def readEntries (header : UnitHeader) (table : List Abbreviation) : Decoded Entry :=
  Entry.readAll header.encoding table header.size header.entries

/-- The first entry. -/
def root (header : UnitHeader) (table : List Abbreviation) : Except DecodeError Entry :=
  let entries := header.readEntries table
  match entries.items, entries.fault with
  | root :: _, _ => .ok root
  | [], some e => .error e
  | [], none => .error .missingRoot

end UnitHeader

namespace Sections

/-- Checks that the line program of a unit, if it has one, has a header that decodes. -/
def checkLineProgram (sections : Sections) (size : AddressSize) : Option Nat →
    Except DecodeError Unit
  | none => .ok ()
  | some offset => discard (LineProgram.decodeAt sections.lines size offset)

def decodeUnit (sections : Sections) (header : UnitHeader) : Except DecodeError CompileUnit := do
  let table ← Abbreviation.table sections.abbreviations header.abbreviations
  let root ← header.root table
  let attributes ← root.attributes.toExcept
  let name := (Attribute.last .name attributes).bind fun value => (sections.string value).toOption
  let lineProgram := Attribute.lastSectionOffset .lineProgram attributes
  sections.checkLineProgram header.encoding.addressSize lineProgram
  if let some lowPc := Attribute.last .lowPc attributes then
    discard lowPc.address?
  .ok ⟨header, table, root, name, lineProgram⟩

/-- The unit whose header starts at an offset. -/
def unitAt (sections : Sections) (offset : Nat) : Except DecodeError CompileUnit := do
  sections.decodeUnit (← UnitHeader.readAt sections.info offset)

/-- All units in section order. -/
def units (sections : Sections) : Decoded CompileUnit :=
  (UnitHeader.readAll sections.info).flatMap fun header => .ofExcept (sections.decodeUnit header)

end Sections

namespace CompileUnit

def entries (unit : CompileUnit) : Decoded Entry := unit.header.readEntries unit.table

/-- The entry at an offset of the unit, which need not be one that the walk meets. -/
def entryAt (unit : CompileUnit) (offset : Nat) : Except DecodeError Entry := do
  let header := unit.header
  if offset < header.size ∨ header.unitSize ≤ offset then throw .outOfBounds
  let (found, _) ← (Entry.read header.encoding unit.table offset).run
    (header.entries.drop (offset - header.size))
  match found with
  | some entry => .ok entry
  | none => .error .noEntry

end CompileUnit

end Symbolizer.Dwarf
