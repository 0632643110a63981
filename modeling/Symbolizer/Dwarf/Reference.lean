import Symbolizer.Dwarf.CompileUnit
import Symbolizer.LookupError

/-! # Names through references

An entry without a name of its own inherits the name of the entry that it is an
instance of, or that it completes. References lead on through at most four entries.
-/

namespace Symbolizer.Dwarf

def maxHops : Nat := 4

namespace Sections

variable (sections : Sections)

/-- The unit in which an offset of the section lies. -/
def unitContaining (offset : Nat) : Except LookupError CompileUnit :=
  let headers := UnitHeader.readAll sections.info
  match headers.items.find? (·.covers offset), headers.fault with
  | some header, _ => (sections.decodeUnit header).mapError .format
  | none, some e => .error (.format e)
  | none, none => .error .badReference

/-- The entry that a reference leads to, and its unit. -/
def target (unit : CompileUnit) : Value → Except LookupError (CompileUnit × Entry)
  | .unitReference offset => do
    .ok (unit, ← (unit.entryAt offset).mapError .format)
  | .sectionReference offset => do
    let unit ← sections.unitContaining offset
    let header := unit.header
    if offset < header.offset + header.size then throw .badReference
    .ok (unit, ← (unit.entryAt (offset - header.offset)).mapError .format)
  | _ => .error .badReference

/-- The first name found behind any of some references. -/
def firstName (follow : Value → Except LookupError (Option Bytes)) :
    List Value → Except LookupError (Option Bytes)
  | [] => .ok none
  | reference :: rest => do
    match ← follow reference with
    | some name => .ok (some name)
    | none => firstName follow rest

/-- The references through which a name is inherited, in the order in which they are tried. -/
def inheritance (attributes : List Attribute) : List Value :=
  (Attribute.last .abstractOrigin attributes).toList ++
    (Attribute.last .specification attributes).toList

/-- The name that an entry has or inherits. Attributes behind its own name are not read. -/
def nameVia (follow : Value → Except LookupError (Option Bytes)) (entry : Entry) :
    Except LookupError (Option Bytes) :=
  match entry.attributes.items.find? (·.name = .name) with
  | some own => some <$> (sections.string own.value).mapError .format
  | none => do
    firstName follow (inheritance (← entry.attributes.toExcept.mapError .format))

/-- The name of the entry that a reference leads to, following as many references as are left. -/
def referencedName : (hops : Nat) → CompileUnit → Value → Except LookupError (Option Bytes)
  | 0, _, _ => .error .referenceChainTooLong
  | hops + 1, unit, reference => do
    let (unit, entry) ← sections.target unit reference
    sections.nameVia (referencedName hops unit) entry

def entryName (unit : CompileUnit) (entry : Entry) : Except LookupError (Option Bytes) :=
  sections.nameVia (sections.referencedName maxHops unit) entry

end Sections

end Symbolizer.Dwarf
