import Symbolizer.Proofs.Blueprint.AddressIndex
import Symbolizer.Proofs.Blueprint.Assembling
import Symbolizer.Proofs.Blueprint.NameIndex

/-! # Lengths that the format keeps for itself

A unit or a line program can be short enough for its section and yet have a length that
is not read as one. It is written like any other, but nothing is found in it, and a walk
over the section ends in front of it.
-/

namespace Symbolizer

open Dwarf

/-- Nothing is read where a piece of a reserved length starts. -/
theorem Dwarf.Reader.sized_drop_reserved {α : Type} {inner : Format → Reader α} {offset : Nat}
    {body contents : Bytes} (hlies : LiesAt offset (Bytes.sized body) contents)
    (hcontents : contents.length < 2 ^ 32)
    (hreserved : plainLengthBound + 4 ≤ (Bytes.sized body).length) :
    sized inner (contents.drop offset) = .error .reservedLength := by
  have hle := hlies.le
  obtain ⟨rest, hdrop⟩ := hlies.drop
  rw [Bytes.sized, List.length_append, Bytes.ofNat_length] at hle hreserved
  rw [hdrop, sized_reserved (by omega) (by omega)]

namespace UnitBlueprint.LiesIn

variable {sections : Sections} {strings : List Bytes} {place : UnitPlace} {unit : UnitBlueprint}

section Unit

variable (hlies : unit.LiesIn sections strings place)
  (hreserved : Reader.plainLengthBound + 4 ≤ (unit.assemble strings place).info.length)
include hlies hreserved

theorem read_reserved (offset : Nat) :
    UnitHeader.read offset (sections.info.drop place.info) = .error .reservedLength := by
  have hinfo := hlies.info
  rw [info_assemble] at hinfo hreserved
  exact Reader.sized_drop_reserved hinfo hlies.info_lt hreserved

theorem unitAt_reserved : sections.unitAt place.info = .error .reservedLength := by
  have hle := hlies.info.le
  rw [Sections.unitAt, UnitHeader.readAt, if_neg (by omega)]
  change (Prod.fst <$> UnitHeader.read place.info _) >>= _ = _
  rw [hlies.read_reserved hreserved]
  rfl

theorem fileForUnit_reserved :
    (sections.fileForUnit place.info).answer = .error (.format .reservedLength) := by
  refine Lookup.answer_bind_of_error ?_ _
  rw [Lookup.answer_decode, hlies.unitAt_reserved hreserved]
  rfl

theorem functionForAddress_reserved (address : Address) :
    (sections.functionForAddress address place.info).answer =
      .error (.format .reservedLength) := by
  refine Lookup.answer_bind_of_error ?_ _
  rw [Lookup.answer_decode, hlies.unitAt_reserved hreserved]
  rfl

end Unit

theorem lineForAddress_reserved (hlies : unit.LiesIn sections strings place)
    (hentries : unit.hasEntries = true)
    (hreserved : Reader.plainLengthBound + 4 ≤ unit.lineCode.length) (address : Address) :
    (sections.lineForAddress address place.lines).answer = .error (.format .reservedLength) := by
  have hlines := hlies.lines
  have hle := hlines.le
  rw [lineCode, if_pos hentries, LineCode.program_eq] at hlines hreserved
  have hdecode : LineProgram.decodeAt sections.lines .eight place.lines =
      .error .reservedLength := by
    rw [LineProgram.decodeAt, if_neg (by omega)]
    change Prod.fst <$> LineProgram.read .eight _ = _
    rw [LineProgram.read, Reader.sized_drop_reserved hlines hlies.lines_lt hreserved]
    rfl
  refine Lookup.answer_bind_of_error ?_ _
  rw [Lookup.answer_decode, hdecode]
  rfl

end UnitBlueprint.LiesIn

namespace Blueprint.Short

variable {blueprint : Blueprint} {unit : UnitBlueprint}

section First

variable (hshort : blueprint.Short) (hfirst : blueprint.units.head? = some unit)
  (hreserved : Reader.plainLengthBound + 4 ≤
    (unit.assemble blueprint.strings ⟨0, 0, 0, 0⟩).info.length)
include hshort hfirst hreserved

/-- The walk ends in front of the first unit. -/
theorem readAll_info_reserved :
    UnitHeader.readAll blueprint.sections.info = ⟨[], some .reservedLength⟩ := by
  have hmem : (⟨0, 0, 0, 0⟩, unit) ∈ blueprint.placedUnits := by
    obtain ⟨rest, hunits⟩ := List.head?_eq_some_iff.mp hfirst
    rw [placedUnits, hunits]
    exact List.mem_cons_self
  have hlies := hshort.liesIn hmem
  have hread := hlies.read_reserved hreserved 0
  have hle := hlies.info.le
  rw [List.drop_zero] at hread
  refine Decoded.unfold_of_error (List.length_pos_iff.mp (by omega)) ?_
  change (UnitHeader.read 0 blueprint.sections.info >>= _) = _
  rw [hread]
  rfl

theorem units_reserved : blueprint.sections.units = ⟨[], some .reservedLength⟩ := by
  rw [Sections.units, hshort.readAll_info_reserved hfirst hreserved]
  rfl

/-- An address at which no function has its code is looked for in vain. -/
theorem unitForAddress_reserved
    (hkept : ∀ unit ∈ blueprint.units, ∀ f ∈ unit.functions,
      f.low.toNat < 2 ^ 64 - 2 ∧ f.Bounded)
    {address : Address} (hcode : ∀ unit ∈ blueprint.units, ¬unit.HasCodeAt address.toNat) :
    (blueprint.sections.unitForAddress address).answer = .error (.format .reservedLength) := by
  have hindex := hshort.search_indexedRanges hkept address
  have hnone : blueprint.placedUnits.find? (·.2.HasCodeAt address.toNat) = none := by
    refine List.find?_eq_none.mpr fun p hp => ?_
    rw [decide_eq_true_iff]
    exact hcode p.2 (mem_of_mem_layOut hp)
  rw [hnone, ite_self] at hindex
  rw [Sections.unitForAddress, Lookup.answer_bind_of_ok hindex]
  refine (Lookup.answer_bind_of_ok rfl _).trans (Lookup.answer_orNotFound_error ?_)
  rw [hshort.units_reserved hfirst hreserved]
  rfl

theorem addressByScan_reserved (name : Bytes) :
    (blueprint.sections.addressByScan name).answer = .error (.format .reservedLength) := by
  refine Lookup.answer_orNotFound_error ?_
  rw [hshort.units_reserved hfirst hreserved]
  rfl

end First

end Blueprint.Short

namespace UnitBlueprint

theorem length_info_assemble (strings : List Bytes) (place : UnitPlace) (unit : UnitBlueprint) :
    (unit.assemble strings place).info.length =
      unitHeaderSize + (unit.entriesCode strings place).length := by
  simp only [info_assemble, Bytes.sized, List.length_append, Bytes.ofNat_length,
    List.length_singleton, unitHeaderSize]
  omega

end UnitBlueprint

theorem LineCode.length_program (file : Bytes) (instructions : List LineInstruction) :
    (program file instructions).length =
      34 + file.length + (instructions.flatMap LineInstruction.encode).length := by
  simp only [program_eq, body, headerTail, Bytes.sized, Bytes.length_terminated,
    List.length_append, Bytes.ofNat_length, List.length_cons, List.length_nil]
  rw [operandCounts]
  simp only [List.length_cons, List.length_nil]
  omega

/-! ## Units with long names -/

/-- A name of so many letters. -/
def longName (letters : Nat) : Bytes := List.replicate letters 97

theorem length_longName (letters : Nat) : (longName letters).length = letters :=
  List.length_replicate

theorem longName_ne_nil {letters : Nat} (h : 0 < letters) : longName letters ≠ [] := by
  rwa [← List.length_pos_iff, length_longName]

theorem zero_notMem_longName (letters : Nat) : 0 ∉ longName letters := fun hzero =>
  absurd (List.eq_of_mem_replicate hzero) (by decide)

/-- A function with a row where it starts. -/
def rowedFunction : FunctionBlueprint :=
  ⟨Bytes.ofText "f", 0x800000001000, 0x20, [⟨0, 7⟩], false, .contiguous⟩

/-- A unit of the function, whose file has a name of so many letters. -/
def longUnit (letters : Nat) : UnitBlueprint := ⟨longName letters, [rowedFunction], []⟩

/-- A unit of nothing but a file with such a name. -/
def bareUnit (letters : Nat) : UnitBlueprint := ⟨longName letters, [], []⟩

/-- An image of a unit alone. -/
def loneImage (unit : UnitBlueprint) : Blueprint where
  units := [unit]
  symbols := []
  addressIndex := true
  danglingNames := []

section LongNames

variable (letters : Nat)

theorem length_info_longUnit (strings : List Bytes) (place : UnitPlace) :
    ((longUnit letters).assemble strings place).info.length = letters + 42 := by
  have hentries : (longUnit letters).entriesCode strings place =
      Leb128.encode 1 ++ (Bytes.terminated (longName letters) ++
        (Bytes.ofNat 8 0x800000001000 ++ (Leb128.encode 0x20 ++
          (Bytes.ofNat 4 place.lines ++ [])))) ++
      (Leb128.encode 2 ++ (Bytes.ofNat 4 (stringOffset (Bytes.ofText "f") strings) ++
        (Bytes.ofNat 8 0x800000001000 ++ (Leb128.encode 0x20 ++ (Leb128.encode 1 ++ [])))) ++
          [] ++ [] ++ [0]) := rfl
  rw [UnitBlueprint.length_info_assemble, hentries]
  simp (disch := decide) only [List.length_append, Bytes.length_terminated, length_longName,
    Bytes.ofNat_length, Leb128.length_encode_of_lt, List.length_cons, List.length_nil,
    unitHeaderSize]
  omega

theorem length_info_bareUnit (strings : List Bytes) (place : UnitPlace) :
    ((bareUnit letters).assemble strings place).info.length = letters + 13 := by
  have hentries : (bareUnit letters).entriesCode strings place =
      Leb128.encode 1 ++ (Bytes.terminated (longName letters) ++ []) ++ [] := rfl
  rw [UnitBlueprint.length_info_assemble, hentries]
  simp (disch := decide) only [List.length_append, Bytes.length_terminated, length_longName,
    Leb128.length_encode_of_lt, List.length_nil, unitHeaderSize]
  omega

theorem length_lineCode_longUnit : (longUnit letters).lineCode.length = letters + 51 := by
  have hsequence :
      ((LineCode.sequence rowedFunction ++ []).flatMap LineInstruction.encode).length = 17 := by
    decide +kernel
  have hcode : (longUnit letters).lineCode =
    LineCode.program (longName letters) (LineCode.sequence rowedFunction ++ []) := rfl
  rw [hcode, LineCode.length_program, hsequence, length_longName]
  omega

variable {letters}

theorem longUnit_named (h : 0 < letters) : (longUnit letters).Named :=
  ⟨longName_ne_nil h, zero_notMem_longName _, List.forall_mem_singleton.mpr (by decide), nofun⟩

theorem bareUnit_named (h : 0 < letters) : (bareUnit letters).Named :=
  ⟨longName_ne_nil h, zero_notMem_longName _, nofun, nofun⟩

theorem longUnit_short (h : letters + 51 < 2 ^ 32) : (loneImage (longUnit letters)).Short := by
  intro kind
  cases kind with
  | info =>
      change (List.length (_ ++ [])) < _
      rw [List.append_nil, length_info_longUnit]
      omega
  | lines =>
      change (List.length ((longUnit letters).lineCode ++ [])) < _
      rwa [List.append_nil, length_lineCode_longUnit]
  | abbreviations =>
      -- The table does not tell one name from another.
      change ((loneImage (longUnit 1)).sections.get .abbreviations).length < _
      decide +kernel
  | addressRanges => exact (by decide : 48 < 2 ^ 32)
  | publicNames => exact (by decide : 18 < 2 ^ 32)
  | strings => exact (by decide : 2 < 2 ^ 32)
  | publicTypes => exact Nat.two_pow_pos 32

theorem longUnit_namesFit (letters : Nat) : (loneImage (longUnit letters)).NamesFit where
  symbolNames := Nat.one_lt_two_pow (by decide)
  units := List.forall_mem_singleton.mpr (by decide : 18 < Reader.plainLengthBound + 4)
  danglingNames := nofun

theorem bareUnit_short (h : letters + 13 < 2 ^ 32) : (loneImage (bareUnit letters)).Short := by
  intro kind
  cases kind with
  | info =>
      change (List.length (_ ++ [])) < _
      rwa [List.append_nil, length_info_bareUnit]
  | abbreviations =>
      change ((loneImage (bareUnit 1)).sections.get .abbreviations).length < _
      decide +kernel
  | publicNames => exact (by decide : 18 < 2 ^ 32)
  | _ => exact Nat.two_pow_pos 32

end LongNames

/-! ## Images of reserved lengths -/

/-- The name is the shortest with which the length of the unit is one that the format keeps for
itself. That of the line program is another one then, and no section is too long. -/
def reservedImage : Blueprint := loneImage (longUnit 4294967242)

theorem reservedImage_short : reservedImage.Short := longUnit_short (by decide)

theorem reservedImage_named : ∀ unit ∈ reservedImage.units, unit.Named :=
  List.forall_mem_singleton.mpr (longUnit_named (by decide))

theorem reservedImage_charted :
    ∀ unit ∈ reservedImage.units, ∀ f ∈ unit.functions, f.Charted :=
  List.forall_mem_singleton.mpr (List.forall_mem_singleton.mpr (by decide))

theorem reservedImage_assembles : ∃ assembled, reservedImage.assemble = .ok assembled :=
  Blueprint.exists_assemble reservedImage_short (Nat.two_pow_pos 32) reservedImage_named
    (fun unit hunit f hf => (reservedImage_charted unit hunit f hf).toOrdered)
    (List.forall_mem_singleton.mpr (List.forall_mem_singleton.mpr nofun))

theorem reservedImage_kept : ∀ unit ∈ reservedImage.units, ∀ f ∈ unit.functions,
    f.low.toNat < 2 ^ 64 - 2 ∧ f.Bounded := fun unit hunit f hf =>
  ⟨(reservedImage_charted unit hunit f hf).kept, (reservedImage_charted unit hunit f hf).bounded⟩

theorem reservedImage_namesFit : reservedImage.NamesFit := longUnit_namesFit _

/-- The unit lies at the start of all sections. -/
theorem reservedImage_liesIn : (longUnit 4294967242).LiesIn reservedImage.sections
    reservedImage.strings ⟨0, 0, 0, 0⟩ := reservedImage_short.liesIn (List.mem_singleton_self _)

theorem reservedImage_info : Reader.plainLengthBound + 4 ≤ ((longUnit 4294967242).assemble
    reservedImage.strings ⟨0, 0, 0, 0⟩).info.length := by
  rw [length_info_longUnit]
  decide

theorem reservedImage_lines :
    Reader.plainLengthBound + 4 ≤ (longUnit 4294967242).lineCode.length := by
  rw [length_lineCode_longUnit]
  decide

/-- The shortest name that does so in a unit without entries, which has no line program. -/
def reservedBareImage : Blueprint := loneImage (bareUnit 4294967271)

theorem reservedBareImage_short : reservedBareImage.Short := bareUnit_short (by decide)

theorem reservedBareImage_named : ∀ unit ∈ reservedBareImage.units, unit.Named :=
  List.forall_mem_singleton.mpr (bareUnit_named (by decide))

theorem reservedBareImage_assembles : ∃ assembled, reservedBareImage.assemble = .ok assembled :=
  Blueprint.exists_assemble reservedBareImage_short (Nat.two_pow_pos 32) reservedBareImage_named
    (List.forall_mem_singleton.mpr nofun) (List.forall_mem_singleton.mpr nofun)

theorem reservedBareImage_liesIn : (bareUnit 4294967271).LiesIn reservedBareImage.sections
    reservedBareImage.strings ⟨0, 0, 0, 0⟩ :=
  reservedBareImage_short.liesIn (List.mem_singleton_self _)

theorem reservedBareImage_info : Reader.plainLengthBound + 4 ≤ ((bareUnit 4294967271).assemble
    reservedBareImage.strings ⟨0, 0, 0, 0⟩).info.length := by
  rw [length_info_bareUnit]
  decide

end Symbolizer
