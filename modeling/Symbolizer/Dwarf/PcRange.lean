import Symbolizer.Dwarf.AddressIndex
import Symbolizer.Dwarf.CompileUnit

/-! # The code that an entry describes

An entry states its code by a first address and an end or a size, or by a list of
ranges. Lists lie in a section that is not at hand; the one at offset zero reads as
empty and the others as ending too early.
-/

namespace Symbolizer.Dwarf

def Value.plainAddress? : Value → Option Address
  | .address a => some a
  | _ => none

namespace Attribute

def describesRangeList (a : Attribute) : Bool :=
  a.name = .ranges && match a.value with
    | .sectionOffset _ | .rangeListIndex => true
    | _ => false

/-- Size of the code, where its end is given by one. -/
def codeSize? (a : Attribute) : Option UInt64 :=
  match a.name, a.value with
  | .highPc, .constant n => some (UInt64.ofNat n)
  | _, _ => none

def codeEnd? (a : Attribute) : Option Address :=
  if a.name = .highPc then a.value.plainAddress? else none

/-- The address that a bound of the code must state. -/
def requireAddress (value : Value) : Except DecodeError Unit := do
  if (← value.address?).isNone then throw .addressForm

/-- Checks the form of a bound of the code. -/
def checkBound (a : Attribute) : Except DecodeError Unit :=
  match a.name, a.value with
  | .highPc, .constant _ => .ok ()
  | .lowPc, value | .highPc, value => requireAddress value
  | _, _ => .ok ()

end Attribute

/-- The list at an offset of a section that is not at hand. -/
def Value.emptyRangeList : Value → Except DecodeError Unit
  | .sectionOffset 0 => .ok ()
  | _ => .error .endOfInput

/-- The range between the bounds, if both are present. A size counts before an end; the sum
wraps, and nothing says that the end comes after the start. -/
def AddressRange.between? (attributes : List Attribute) : Option AddressRange := do
  let first ← (Attribute.last .lowPc attributes).bind Value.plainAddress?
  match (attributes.filterMap Attribute.codeSize?).getLast? with
  | some size => some ⟨first, first + size⟩
  | none => return ⟨first, ← (attributes.filterMap Attribute.codeEnd?).getLast?⟩

/-- The range of an entry's code, if it has one. A list of ranges wins over bounds, and what
follows it is not read. -/
def Entry.range? (entry : Entry) : Except DecodeError (Option AddressRange) := do
  let attributes := entry.attributes.items
  (attributes.takeWhile (!·.describesRangeList)).forM Attribute.checkBound
  match attributes.find? (·.describesRangeList) with
  | some list =>
    list.value.emptyRangeList
    .ok none
  | none => return AddressRange.between? (← entry.attributes.toExcept)

end Symbolizer.Dwarf
