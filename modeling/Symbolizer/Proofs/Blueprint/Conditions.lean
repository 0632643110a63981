import Symbolizer.Dwarf.AddressIndex
import Symbolizer.Proofs.Blueprint.Placement

/-! # What blueprints have to satisfy

Names are read back if they hold no zero, code if it does not wrap around the address
space, rows if they are in order, and offsets and lengths if they fit what is written
for them.
-/

namespace Symbolizer

open Dwarf

/-- The code does not wrap around the address space. -/
def FunctionBlueprint.Bounded (function : FunctionBlueprint) : Prop :=
  function.low.toNat + function.length.toNat < 2 ^ 64

/-- The address lies in the code of the function. -/
def FunctionBlueprint.Covers (f : FunctionBlueprint) (address : Nat) : Prop :=
  f.low.toNat ≤ address ∧ address < f.low.toNat + f.length.toNat

instance (f : FunctionBlueprint) (address : Nat) : Decidable (f.Covers address) :=
  instDecidableAnd

/-- The range of code that does not wrap is the code. -/
theorem contains_range_iff (low length address : UInt64)
    (hbounded : low.toNat + length.toNat < 2 ^ 64) :
    (AddressRange.mk low (low + length)).contains address = true ↔
      low.toNat ≤ address.toNat ∧ address.toNat < low.toNat + length.toNat := by
  rw [AddressRange.contains, Bool.and_eq_true, decide_eq_true_iff, decide_eq_true_iff,
    UInt64.le_iff_toNat_le, UInt64.lt_iff_toNat_lt, UInt64.toNat_add, Nat.mod_eq_of_lt hbounded]

/-- Names hold no zero, which would end them early, and the file has one. -/
structure UnitBlueprint.Named (unit : UnitBlueprint) : Prop where
  file_ne_nil : unit.file ≠ []
  file : 0 ∉ unit.file
  functions : ∀ f ∈ unit.functions, 0 ∉ f.name
  variableNames : ∀ name ∈ unit.variableNames, 0 ∉ name

instance (function : FunctionBlueprint) : Decidable function.Bounded := Nat.decLt _ _

instance (unit : UnitBlueprint) : Decidable unit.Named :=
  decidable_of_iff (unit.file ≠ [] ∧ 0 ∉ unit.file ∧ (∀ f ∈ unit.functions, 0 ∉ f.name) ∧
      ∀ name ∈ unit.variableNames, 0 ∉ name)
    ⟨fun ⟨hne, hfile, hfunctions, hvariables⟩ => ⟨hne, hfile, hfunctions, hvariables⟩,
      fun h => ⟨h.file_ne_nil, h.file, h.functions, h.variableNames⟩⟩

/-- The code is short enough for its advances to be weighed against special instructions, and has
rows that are in order and lie in it. -/
structure FunctionBlueprint.Ordered (function : FunctionBlueprint) : Prop where
  bounded : function.Bounded
  short : function.length.toNat < 2 ^ 56
  ascending : function.rows.Pairwise fun first second => first.offset ≤ second.offset
  inside : ∀ row ∈ function.rows, row.offset ≤ function.length

instance (function : FunctionBlueprint) : Decidable function.Ordered :=
  decidable_of_iff (function.Bounded ∧ function.length.toNat < 2 ^ 56 ∧
      (function.rows.Pairwise fun first second => first.offset ≤ second.offset) ∧
      ∀ row ∈ function.rows, row.offset ≤ function.length)
    ⟨fun ⟨hbounded, hshort, hascending, hinside⟩ => ⟨hbounded, hshort, hascending, hinside⟩,
      fun h => ⟨h.bounded, h.short, h.ascending, h.inside⟩⟩

/-- Besides, the code does not start where dropped code does. -/
structure FunctionBlueprint.Charted (function : FunctionBlueprint) : Prop extends
    function.Ordered where
  kept : function.low.toNat < 2 ^ 64 - 2

instance (function : FunctionBlueprint) : Decidable function.Charted :=
  decidable_of_iff (function.Ordered ∧ function.low.toNat < 2 ^ 64 - 2)
    ⟨fun ⟨hordered, hkept⟩ => ⟨hordered, hkept⟩, fun h => ⟨h.toOrdered, h.kept⟩⟩

/-- The length fields of the parts state lengths: none takes a value that the format keeps for
itself. -/
structure UnitParts.Plain (parts : UnitParts) : Prop where
  info : parts.info.length < Reader.plainLengthBound + 4
  lines : parts.lines.length < Reader.plainLengthBound + 4

/-- Every section is shorter than any offset of four bytes could be. -/
def Blueprint.Short (blueprint : Blueprint) : Prop :=
  ∀ kind, (blueprint.sections.get kind).length < 2 ^ 32

/-- Offsets and lengths fit the four bytes that are written for them. -/
structure Blueprint.Fits (blueprint : Blueprint) : Prop where
  sections : blueprint.Short
  units : ∀ p ∈ blueprint.placedUnits, (p.2.assemble blueprint.strings p.1).Plain

/-- So do those of the index of names and of the symbol table. -/
structure Blueprint.NamesFit (blueprint : Blueprint) : Prop where
  symbolNames : (SymbolBlueprint.names blueprint.symbols).length < 2 ^ 32
  units : ∀ p ∈ blueprint.placedUnits,
    (p.2.assemble blueprint.strings p.1).nameIndex.length < Reader.plainLengthBound + 4
  danglingNames : ∀ entry ∈ blueprint.danglingNames,
    (Blueprint.danglingNameSet entry).length < Reader.plainLengthBound + 4

/-- The parts of a unit lie at its place in sections that are not too long. -/
structure UnitBlueprint.LiesIn (sections : Sections) (strings : List Bytes) (place : UnitPlace)
    (unit : UnitBlueprint) : Prop where
  info : LiesAt place.info (unit.assemble strings place).info sections.info
  abbreviations :
    LiesAt place.abbreviations (EntryLayout.encodeTable unit.layouts) sections.abbreviations
  lines : LiesAt place.lines unit.lineCode sections.lines
  functionNames : ∀ f ∈ unit.functions,
    LiesAt (stringOffset f.name strings) (Bytes.terminated f.name) sections.strings
  info_lt : sections.info.length < 2 ^ 32
  abbreviations_lt : sections.abbreviations.length < 2 ^ 32
  lines_lt : sections.lines.length < 2 ^ 32
  strings_lt : sections.strings.length < 2 ^ 32

/-- And their lengths can be read back. -/
structure UnitBlueprint.WrittenIn (sections : Sections) (strings : List Bytes) (place : UnitPlace)
    (unit : UnitBlueprint) : Prop extends unit.LiesIn sections strings place where
  plain : (unit.assemble strings place).Plain

namespace Blueprint

variable {blueprint : Blueprint} {place : UnitPlace} {unit : UnitBlueprint}

/-- Sections that are shorter than any reserved length fit. -/
theorem Fits.of_length_lt
    (h : ∀ kind, (blueprint.sections.get kind).length < Reader.plainLengthBound) :
    blueprint.Fits where
  sections := fun kind => Nat.lt_trans (h kind) (by decide)
  units := fun p hp =>
    { info := by
        have hle := length_le_length_flatMap
          (fun p => (p.2.assemble blueprint.strings p.1).info) hp
        have hinfo : blueprint.sections.info.length < Reader.plainLengthBound := h .info
        exact Nat.lt_add_right 4 (Nat.lt_of_le_of_lt hle hinfo)
      lines := by
        have hle := length_le_length_flatMap
          (fun p => (p.2.assemble blueprint.strings p.1).lines) hp
        have hlines : blueprint.sections.lines.length < Reader.plainLengthBound := h .lines
        exact Nat.lt_add_right 4 (Nat.lt_of_le_of_lt hle hlines) }

/-- So does an index of names that is shorter. -/
theorem NamesFit.of_length_lt
    (hsymbols : (SymbolBlueprint.names blueprint.symbols).length < 2 ^ 32)
    (hnames : blueprint.sections.publicNames.length < Reader.plainLengthBound) :
    blueprint.NamesFit where
  symbolNames := hsymbols
  units := by
    intro p hp
    have hle := length_le_length_flatMap
      (fun p => (p.2.assemble blueprint.strings p.1).nameIndex) hp
    rw [Blueprint.sections, List.length_append] at hnames
    exact Nat.lt_add_right 4 (Nat.lt_of_le_of_lt (Nat.le_add_right_of_le hle) hnames)
  danglingNames := by
    intro entry hentry
    have hle := length_le_length_flatMap danglingNameSet hentry
    rw [Blueprint.sections, List.length_append] at hnames
    exact Nat.lt_add_right 4 (Nat.lt_of_le_of_lt (Nat.le_add_left_of_le hle) hnames)

/-- Every unit lies at its place. -/
theorem Short.liesIn (hshort : blueprint.Short) (h : (place, unit) ∈ blueprint.placedUnits) :
    unit.LiesIn blueprint.sections blueprint.strings place where
  info := liesAt_of_mem_placedUnits h UnitPlace.info UnitParts.info (fun _ _ => rfl) rfl
  abbreviations := liesAt_of_mem_placedUnits h UnitPlace.abbreviations UnitParts.abbreviations
    (fun _ _ => rfl) rfl
  lines := liesAt_of_mem_placedUnits h UnitPlace.lines UnitParts.lines (fun _ _ => rfl) rfl
  functionNames := fun _ hf => liesAt_stringOffset (mem_strings (mem_of_mem_layOut h) hf)
  info_lt := hshort .info
  abbreviations_lt := hshort .abbreviations
  lines_lt := hshort .lines
  strings_lt := hshort .strings

/-- Every unit of a blueprint that fits can be found at its place. -/
theorem Fits.writtenIn (hfits : blueprint.Fits) (h : (place, unit) ∈ blueprint.placedUnits) :
    unit.WrittenIn blueprint.sections blueprint.strings place where
  toLiesIn := hfits.sections.liesIn h
  plain := hfits.units (place, unit) h

end Blueprint

end Symbolizer
