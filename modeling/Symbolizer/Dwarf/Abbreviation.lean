import Symbolizer.Dwarf.Decoded

/-! # Abbreviation tables

An abbreviation says once what many entries share: their tag, whether they have
children, and the name and form of each attribute. A table ends at a zero code or
at the end of its section, and uses no code twice.
-/

namespace Symbolizer.Dwarf

/-- Attributes that the lookups read; the others are told apart by nothing but their code. -/
inductive AttributeName
  | name
  | lineProgram
  | lowPc
  | highPc
  | inlined
  | abstractOrigin
  | declaration
  | specification
  | ranges
  | other (code : Nat)
  deriving DecidableEq, Repr

def AttributeName.ofCode : Nat → AttributeName
  | 0x03 => name
  | 0x10 => lineProgram
  | 0x11 => lowPc
  | 0x12 => highPc
  | 0x20 => inlined
  | 0x31 => abstractOrigin
  | 0x3c => declaration
  | 0x47 => specification
  | 0x55 => ranges
  | code => other code

/-- The form of an attribute whose value stands in the abbreviation itself. -/
def implicitConstantForm : Nat := 0x21

structure AttributeSpec where
  name : AttributeName
  form : Nat
  /-- The value, where the form says that it is kept here. -/
  constant : Option Int
  deriving DecidableEq, Repr

structure Abbreviation where
  code : Nat
  tag : Nat
  hasChildren : Bool
  attributes : List AttributeSpec
  deriving DecidableEq, Repr

/-- A pair of zeros ends the attributes. -/
def AttributeSpec.read : Reader (Option AttributeSpec) := do
  let name ← Reader.code
  let form ← Reader.code
  if name = 0 then
    if form = 0 then pure none else throw .expectedZero
  else if form = 0 then throw .zeroForm
  else if form = implicitConstantForm then
    return some ⟨.ofCode name, form, some (← Reader.sleb)⟩
  else return some ⟨.ofCode name, form, none⟩

namespace Abbreviation

def childrenFlag : Reader Bool := do
  match ← Reader.byte with
  | 0 => pure false
  | 1 => pure true
  | _ => throw .badChildrenFlag

/-- A zero code ends the table. -/
def read : Reader (Option Abbreviation) := do
  let code ← Reader.uleb
  if code = 0 then pure none
  else
    let tag ← Reader.code
    if tag = 0 then throw .zeroTag
    let hasChildren ← childrenFlag
    let attributes ← Reader.many AttributeSpec.read
    return some ⟨code, tag, hasChildren, attributes⟩

/-- The table at an offset of the section. A code that is used again is found before a fault
further on. -/
def table (contents : Bytes) (offset : Nat) : Except DecodeError (List Abbreviation) :=
  if contents.length < offset then .error .endOfInput
  else
    let entries := Decoded.unfold (fun _ => read) 0 (contents.drop offset)
    if (entries.items.map code).Nodup then entries.toExcept else .error .duplicateCode

end Abbreviation

end Symbolizer.Dwarf
