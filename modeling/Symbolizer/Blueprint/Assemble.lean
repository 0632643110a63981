import Symbolizer.Blueprint.EntryCode
import Symbolizer.Image

/-! # Assembling images

Units are written in order, each behind the parts of those before it. Indexes and the
symbol table are assembled from the same blueprint.
-/

namespace Symbolizer

/-- Where the parts of a unit come to lie. -/
structure UnitPlace where
  info : Nat
  abbreviations : Nat
  lines : Nat
  /-- Where its lists of ranges start in a section that is not part of the image. -/
  ranges : Nat
  deriving DecidableEq, Repr

/-- What a unit contributes to each section. -/
structure UnitParts where
  info : Bytes
  abbreviations : Bytes
  lines : Bytes
  ranges : Nat
  addressIndex : Bytes
  nameIndex : Bytes
  deriving DecidableEq, Repr

/-- The entries of a function or a variable, and what the index of names says of them. -/
structure PlacedEntries where
  code : Bytes
  indexed : Option (Bytes × Nat)
  deriving DecidableEq, Repr

/-- Places one after another; each is told where it starts. -/
def PlacedEntries.placeAll : (offset : Nat) → List (Nat → PlacedEntries) → List PlacedEntries
  | _, [] => []
  | offset, next :: rest =>
    next offset :: placeAll (offset + (next offset).code.length) rest

/-- The offset of a string among others, each of them terminated. -/
def stringOffset (name : Bytes) : List Bytes → Nat
  | [] => 0
  | first :: rest => if first = name then 0 else first.length + 1 + stringOffset name rest

/-- The size of a list of one range. -/
def rangeListSize : Nat := 32

/-- The size of a unit header. -/
def unitHeaderSize : Nat := 11

/-- A set of the index of names. -/
def nameIndexSet (unit size : Nat) (names : List (Bytes × Nat)) : Bytes :=
  Bytes.sized (Bytes.ofNat 2 2 ++ Bytes.ofNat 4 unit ++ Bytes.ofNat 4 size ++
    names.flatMap (fun indexed => Bytes.ofNat 4 indexed.2 ++ Bytes.terminated indexed.1) ++
    Bytes.ofNat 4 0)

namespace FunctionBlueprint

/-- The entries of a function, at an offset of its unit. -/
def place (layouts : List EntryLayout) (strings : List Bytes) (rangeList : Nat)
    (function : FunctionBlueprint) (offset : Nat) : PlacedEntries :=
  let name := FieldValue.stringOffset (stringOffset function.name strings)
  ⟨(function.drafts name rangeList offset).flatMap (EntryDraft.encode layouts),
    if function.indexed then
      some (function.name, function.codeOffset layouts name offset)
    else none⟩

end FunctionBlueprint

namespace UnitBlueprint

open BlueprintError (require)

def placeVariable (layouts : List EntryLayout) (name : Bytes) (offset : Nat) : PlacedEntries :=
  ⟨(variableDraft name).encode layouts, some (name, offset)⟩

/-- A set of the index from addresses to units. -/
def addressIndexSet (unit : UnitBlueprint) (offset : Nat) : Bytes :=
  Bytes.sized (Bytes.ofNat 2 2 ++ Bytes.ofNat 4 offset ++ [8, 0] ++ List.replicate 4 0 ++
    unit.functions.flatMap (fun f =>
      Bytes.ofNat 8 f.low.toNat ++ Bytes.ofNat 8 f.length.toNat) ++
    List.replicate 16 0)

def rangeListOffset (unit : UnitBlueprint) (place : UnitPlace) (function : FunctionBlueprint) :
    Nat :=
  place.ranges + rangeListSize * unit.rangeLists.idxOf (function.low, function.length)

/-- The entries behind the first one, which ends at an offset of the unit. -/
def placed (strings : List Bytes) (place : UnitPlace) (offset : Nat) (unit : UnitBlueprint) :
    List PlacedEntries :=
  PlacedEntries.placeAll offset
    ((unit.functions.map fun f =>
        f.place unit.layouts strings (unit.rangeListOffset place f)) ++
      unit.variableNames.map (placeVariable unit.layouts))

def assemble (strings : List Bytes) (place : UnitPlace) (unit : UnitBlueprint) : UnitParts :=
  let root := (unit.rootDraft place.lines).encode unit.layouts
  let placed := unit.placed strings place (unitHeaderSize + root.length)
  let info := Bytes.sized (Bytes.ofNat 2 4 ++ Bytes.ofNat 4 place.abbreviations ++ [8] ++ root ++
    placed.flatMap PlacedEntries.code ++ if unit.hasEntries then [0] else [])
  { info
    abbreviations := EntryLayout.encodeTable unit.layouts
    lines := unit.lineCode
    ranges := rangeListSize * unit.rangeLists.length
    addressIndex :=
      if unit.functions.isEmpty then [] else unit.addressIndexSet place.info
    nameIndex := nameIndexSet place.info info.length (placed.filterMap PlacedEntries.indexed) }

/-- Whether some list of ranges would hold an empty range. -/
def hasEmptyRange (unit : UnitBlueprint) : Bool :=
  unit.functions.any fun f => f.shape = .rangeList && f.length = 0

/-- Checks what is known of the unit before anything is written. The names of variables are not
looked at. -/
def check (unit : UnitBlueprint) : Except BlueprintError Unit := do
  require (unit.file ≠ []) .emptyFile
  require (0 ∉ unit.file) .zeroInFile
  unit.functions.forM LineCode.checkSequence
  unit.functions.forM fun f => require (f.low.toNat + f.length.toNat < UInt64.size) .sumOverflow
  unit.functions.forM fun f => require (0 ∉ f.name) .zeroInName

/-- Checks that an offset or a length fits four bytes. -/
def checkWord (n : Nat) : Except BlueprintError Unit := require (n < UInt32.size) .wideValue

/-- Checks the unit as it is written at its place. Of the words inside a part, the length of the
part is checked, which is larger. -/
def checkParts (strings : List Bytes) (place : UnitPlace) (unit : UnitBlueprint) :
    Except BlueprintError Unit := do
  let parts := unit.assemble strings place
  checkWord (parts.lines.length - 4)
  checkWord place.abbreviations
  require (¬unit.hasEmptyRange) .emptyRange
  checkWord (if unit.hasEntries then place.lines else 0)
  unit.functions.forM fun f => checkWord (stringOffset f.name strings)
  (unit.functions.filter (·.shape = .rangeList)).forM fun f =>
    checkWord (unit.rangeListOffset place f)
  checkWord (parts.info.length - 4)

end UnitBlueprint

/-- Where the next unit lies behind the parts of one. -/
def UnitPlace.after (place : UnitPlace) (parts : UnitParts) : UnitPlace where
  info := place.info + parts.info.length
  abbreviations := place.abbreviations + parts.abbreviations.length
  lines := place.lines + parts.lines.length
  ranges := place.ranges + parts.ranges

namespace SymbolBlueprint

/-- Binding and kind share a byte, of which each has half. -/
def info (symbol : SymbolBlueprint) : UInt8 := symbol.binding <<< 4 ||| (symbol.kind &&& 0xf)

/-- The record of a symbol whose name is at an offset. -/
def record (name : Nat) (symbol : SymbolBlueprint) : Bytes :=
  Bytes.ofNat 4 name ++ [symbol.info, 0] ++ Bytes.ofNat 2 1 ++
    Bytes.ofNat 8 symbol.value.toNat ++ Bytes.ofNat 8 0

/-- Records of symbols whose names follow one another from an offset on. -/
def records : (offset : Nat) → List SymbolBlueprint → Bytes
  | _, [] => []
  | offset, symbol :: rest =>
    symbol.record offset ++ records (offset + symbol.name.length + 1) rest

/-- The table; its first record is reserved. -/
def table (symbols : List SymbolBlueprint) : Bytes := List.replicate 24 0 ++ records 1 symbols

/-- The names of the table; its first one is empty. -/
def names (symbols : List SymbolBlueprint) : Bytes :=
  0 :: symbols.flatMap fun symbol => Bytes.terminated symbol.name

end SymbolBlueprint

/-- An image, and where its units and their line programs were laid. -/
structure AssembledImage where
  image : Image
  unitOffsets : List Nat
  lineOffsets : List Nat
  deriving DecidableEq, Repr

namespace Blueprint

/-- The names of all functions, each at its first use. -/
def strings (blueprint : Blueprint) : List Bytes :=
  (blueprint.units.flatMap fun unit => unit.functions.map FunctionBlueprint.name).eraseDups

/-- The units, each behind the parts of those before it. -/
def assembleUnits (strings : List Bytes) :
    UnitPlace → List UnitBlueprint → Except BlueprintError (List (UnitPlace × UnitParts))
  | _, [] => .ok []
  | place, unit :: rest => do
    unit.checkParts strings place
    let parts := unit.assemble strings place
    return (place, parts) :: (← assembleUnits strings (place.after parts) rest)

def danglingNameSet (entry : DanglingName) : Bytes :=
  nameIndexSet entry.unit.toNat 0 [(entry.name, unitHeaderSize)]

/-- All units are checked before the first one is written. -/
def assemble (blueprint : Blueprint) : Except BlueprintError AssembledImage := do
  blueprint.units.forM UnitBlueprint.check
  let units ← assembleUnits blueprint.strings ⟨0, 0, 0, 0⟩ blueprint.units
  let parts := units.map Prod.snd
  return {
    image := {
      sections := {
        addressRanges := if blueprint.addressIndex then parts.flatMap (·.addressIndex) else []
        abbreviations := parts.flatMap (·.abbreviations)
        info := parts.flatMap (·.info)
        lines := parts.flatMap (·.lines)
        strings := blueprint.strings.flatMap Bytes.terminated
        publicNames :=
          parts.flatMap (·.nameIndex) ++ blueprint.danglingNames.flatMap danglingNameSet
        publicTypes := [] }
      symbols := SymbolBlueprint.table blueprint.symbols
      symbolNames := .table (SymbolBlueprint.names blueprint.symbols) }
    unitOffsets := units.map (·.1.info)
    lineOffsets := units.map (·.1.lines) }

end Blueprint

end Symbolizer
