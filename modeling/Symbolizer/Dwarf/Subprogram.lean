import Symbolizer.Dwarf.PcRange
import Symbolizer.Dwarf.Reference
import Symbolizer.Lookup

/-! # Subprograms

A concrete subprogram is an entry for code of its own: neither a declaration nor the
common part of inlined instances. Its name and its code are decoded only on demand.
-/

namespace Symbolizer.Dwarf

structure Subprogram where
  entry : Entry
  name : Option Value
  lowPc : Option Value
  /-- The references through which the name is inherited. -/
  origins : List Value
  deriving DecidableEq, Repr

/-- Whether an attribute says that its subprogram has no code of its own. -/
def Attribute.deniesCode (a : Attribute) : Bool :=
  match a.name, a.value with
  | .inlined, .constant n => 0 < n && n < 256
  | .declaration, .flag set => set
  | _, _ => false

namespace Subprogram

/-- The subprogram of an entry, if it is a concrete one. What follows an attribute that says
otherwise is not read. -/
def ofEntry (entry : Entry) : Except DecodeError (Option Subprogram) :=
  if entry.tag ≠ subprogramTag ∨ entry.attributes.items.any Attribute.deniesCode then .ok none
  else do
    let attributes ← entry.attributes.toExcept
    .ok (some ⟨entry, Attribute.last .name attributes, Attribute.last .lowPc attributes,
      Sections.inheritance attributes⟩)

/-- The concrete subprograms among entries. -/
def ofEntries (entries : Decoded Entry) : Decoded Subprogram :=
  entries.flatMap fun entry =>
    match ofEntry entry with
    | .ok (some subprogram) => .one subprogram
    | .ok none => .done
    | .error e => .failed e

/-- The address at which the subprogram starts, if it states one. -/
def start? (subprogram : Subprogram) : Except DecodeError (Option Address) :=
  match subprogram.lowPc with
  | some value => value.address?
  | none => .ok none

/-- The range of the code, if it has one that is accepted. Code whose range cannot be decoded is
reported and accepted by nothing. -/
def range? (subprogram : Subprogram) (accepted : AddressRange → Bool) :
    Lookup (Option AddressRange) :=
  match subprogram.entry.range? with
  | .ok range => pure (range.filter accepted)
  | .error e => do
    Lookup.tell (.unreadableRanges subprogram.entry.offset e)
    pure none

/-- The start of the subprogram, or else of its code. -/
def startOrFirst? (subprogram : Subprogram) : Lookup (Option Address) := do
  match ← Lookup.decode subprogram.start? with
  | some address => pure (some address)
  | none => return (← subprogram.range? fun _ => true).map AddressRange.first

end Subprogram

namespace Sections

/-- The name of a subprogram, inherited if it has none of its own. -/
def subprogramName (sections : Sections) (unit : CompileUnit) (subprogram : Subprogram) :
    Except LookupError (Option Bytes) :=
  match subprogram.name with
  | some value => some <$> (sections.string value).mapError .format
  | none => firstName (sections.referencedName maxHops unit) subprogram.origins

end Sections

def CompileUnit.subprograms (unit : CompileUnit) : Decoded Subprogram :=
  Subprogram.ofEntries unit.entries

end Symbolizer.Dwarf
