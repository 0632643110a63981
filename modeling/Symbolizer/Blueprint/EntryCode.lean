import Symbolizer.Blueprint.LineCode
import Symbolizer.Dwarf.Entry

/-! # Debug entries of blueprints

An entry is drafted as a tag and its fields. Drafts of one layout share an
abbreviation; codes count up from one in order of first use.
-/

namespace Symbolizer

namespace Dwarf.AttributeName

/-- The file in which something is declared. -/
def declarationFile : AttributeName := .other 0x3a

def code : AttributeName → Nat
  | name => 0x03
  | lineProgram => 0x10
  | lowPc => 0x11
  | highPc => 0x12
  | inlined => 0x20
  | abstractOrigin => 0x31
  | declaration => 0x3c
  | specification => 0x47
  | ranges => 0x55
  | other code => code

end Dwarf.AttributeName

open Dwarf (AttributeName)

/-- A form that blueprints use, with the value that is written in it. -/
inductive FieldValue
  | address (address : Address)
  | data (n : Nat)
  | flagPresent
  | string (text : Bytes)
  | stringOffset (offset : Nat)
  | sectionOffset (offset : Nat)
  | unitReference (offset : Nat)
  deriving DecidableEq, Repr

namespace FieldValue

def form : FieldValue → Nat
  | address _ => 0x01
  | data _ => 0x0f
  | flagPresent => 0x19
  | string _ => 0x08
  | stringOffset _ => 0x0e
  | sectionOffset _ => 0x17
  | unitReference _ => 0x13

def encode : FieldValue → Bytes
  | address a => Bytes.ofNat 8 a.toNat
  | data n => Dwarf.Leb128.encode n
  | flagPresent => []
  | string text => Bytes.terminated text
  | stringOffset offset | sectionOffset offset | unitReference offset => Bytes.ofNat 4 offset

end FieldValue

/-- What an abbreviation says of an entry. -/
structure EntryLayout where
  tag : Nat
  hasChildren : Bool
  fields : List (AttributeName × Nat)
  deriving DecidableEq, Repr

structure EntryDraft where
  tag : Nat
  hasChildren : Bool
  fields : List (AttributeName × FieldValue)
  deriving DecidableEq, Repr

namespace EntryDraft

def unitTag : Nat := 0x11

def variableTag : Nat := 0x34

def layout (draft : EntryDraft) : EntryLayout :=
  ⟨draft.tag, draft.hasChildren, draft.fields.map fun field => (field.1, field.2.form)⟩

/-- The entry, under the code of its layout among others. -/
def encode (layouts : List EntryLayout) (draft : EntryDraft) : Bytes :=
  Dwarf.Leb128.encode (layouts.idxOf draft.layout + 1) ++
    draft.fields.flatMap fun field => field.2.encode

end EntryDraft

namespace EntryLayout

def encode (layout : EntryLayout) (code : Nat) : Bytes :=
  Dwarf.Leb128.encode code ++ Dwarf.Leb128.encode layout.tag ++
    [if layout.hasChildren then 1 else 0] ++
    layout.fields.flatMap (fun field =>
      Dwarf.Leb128.encode field.1.code ++ Dwarf.Leb128.encode field.2) ++ [0, 0]

def encodeFrom : (code : Nat) → List EntryLayout → Bytes
  | _, [] => [0]
  | code, layout :: rest => layout.encode code ++ encodeFrom (code + 1) rest

/-- The table of layouts, with codes from one on. -/
def encodeTable (layouts : List EntryLayout) : Bytes := encodeFrom 1 layouts

end EntryLayout

namespace FunctionBlueprint

/-- The fields that say where the code is, and where it is declared. -/
def codeFields (rangeList : Nat) (function : FunctionBlueprint) :
    List (AttributeName × FieldValue) :=
  (match function.shape with
    | .rangeList => [(.ranges, .sectionOffset rangeList)]
    | _ => [(.lowPc, .address function.low), (.highPc, .data function.length.toNat)]) ++
    [(.declarationFile, .data 1)]

/-- The entry that holds the name, where it is not the one that holds the code. Its offset is
that of the function. -/
def nameDraft? (name : FieldValue) (function : FunctionBlueprint) : Option EntryDraft :=
  match function.shape with
  | .contiguous | .rangeList => none
  | .outOfLine => some ⟨Dwarf.subprogramTag, false, [(.name, name), (.inlined, .data 1)]⟩
  | .separatelyDeclared =>
    some ⟨Dwarf.subprogramTag, false, [(.name, name), (.declaration, .flagPresent)]⟩

/-- The field through which the entry that holds the code has its name. -/
def nameField (name : FieldValue) (offset : Nat) (function : FunctionBlueprint) :
    AttributeName × FieldValue :=
  match function.shape with
  | .contiguous | .rangeList => (.name, name)
  | .outOfLine => (.abstractOrigin, .unitReference offset)
  | .separatelyDeclared => (.specification, .unitReference offset)

/-- The entry that holds the code. -/
def codeDraft (name : FieldValue) (rangeList offset : Nat) (function : FunctionBlueprint) :
    EntryDraft :=
  ⟨Dwarf.subprogramTag, false, function.nameField name offset :: function.codeFields rangeList⟩

/-- All entries of the function, when the first comes to lie at an offset of its unit. -/
def drafts (name : FieldValue) (rangeList offset : Nat) (function : FunctionBlueprint) :
    List EntryDraft :=
  (function.nameDraft? name).toList ++ [function.codeDraft name rangeList offset]

/-- The layouts of the entries, which do not depend on the values in them. -/
def layouts (function : FunctionBlueprint) : List EntryLayout :=
  (function.drafts (.stringOffset 0) 0 0).map EntryDraft.layout

/-- Where the entry that holds the code starts. -/
def codeOffset (layouts : List EntryLayout) (name : FieldValue) (offset : Nat)
    (function : FunctionBlueprint) : Nat :=
  offset + ((function.nameDraft? name).toList.flatMap (EntryDraft.encode layouts)).length

end FunctionBlueprint

namespace UnitBlueprint

def variableDraft (name : Bytes) : EntryDraft :=
  ⟨EntryDraft.variableTag, false, [(.name, .string name), (.declarationFile, .data 1)]⟩

/-- The lowest address of the functions and what they span from there. -/
def hull? (unit : UnitBlueprint) : Option (Address × Nat) := do
  let low ← (unit.functions.map (·.low.toNat)).min?
  let high ← (unit.functions.map fun f => f.low.toNat + f.length.toNat).max?
  some (UInt64.ofNat low, high - low)

def rootDraft (lines : Nat) (unit : UnitBlueprint) : EntryDraft :=
  ⟨EntryDraft.unitTag, unit.hasEntries,
    [(.name, .string unit.file)] ++
    (match unit.hull? with
      | some (low, span) => [(.lowPc, .address low), (.highPc, .data span)]
      | none => []) ++
    (if unit.hasEntries then [(.lineProgram, .sectionOffset lines)] else [])⟩

/-- The layouts of all entries, each once. -/
def layouts (unit : UnitBlueprint) : List EntryLayout :=
  ((unit.rootDraft 0).layout :: unit.functions.flatMap FunctionBlueprint.layouts ++
    unit.variableNames.map fun name => (variableDraft name).layout).eraseDups

/-- The different ranges that lists are written for. -/
def rangeLists (unit : UnitBlueprint) : List (Address × UInt64) :=
  ((unit.functions.filter (·.shape = .rangeList)).map fun f => (f.low, f.length)).eraseDups

end UnitBlueprint

end Symbolizer
