import Symbolizer.Blueprint.LineCode
import Symbolizer.Proofs.FunctionSearch
import Symbolizer.Proofs.UnitPlaces

/-! # Offsets handed from one lookup to the next

A lookup for an address hands on the offset of a unit, and a lookup for its file hands on
the offset of a line program. Whoever takes an offset reads from it again and knows less:
a unit is looked up without the walk that met it, a line program without the unit that
owns it. Both are found all the same.
-/

namespace Symbolizer.Dwarf

namespace Reader

variable {α β : Type}

theorem map_within (f : α → β) (count : Nat) (inner : Reader α) :
    f <$> within count inner = within count (f <$> inner) := by
  simp only [within, map_bind, map_pure, StateT.run_map, liftM_map, bind_map_left]

theorem map_sized (f : α → β) (inner : Format → Reader α) :
    f <$> sized inner = sized fun format => f <$> inner format := by
  simp only [sized, map_bind, map_within]

end Reader

/-- The encoding of a line program that is opened where addresses are of the size. Version 5
states its own. -/
def Encoding.openedWith (size : AddressSize) (encoding : Encoding) : Encoding :=
  if encoding.version = 5 then encoding else { encoding with addressSize := size }

namespace LineProgram

def openedWith (size : AddressSize) (program : LineProgram) : LineProgram :=
  { program with encoding := program.encoding.openedWith size }

theorem paths_openedWith (size : AddressSize) (encoding : Encoding) :
    paths (encoding.openedWith size) = paths encoding := by
  rw [Encoding.openedWith]
  split
  · rfl
  · rename_i hversion
    rw [paths, paths, if_neg hversion, if_neg hversion]

/-- Nothing in a header but its own statement tells the size of addresses. -/
theorem parameters_openedWith (size : AddressSize) (encoding : Encoding) :
    parameters (encoding.openedWith size) = openedWith size <$> parameters encoding := by
  have hversion : (encoding.openedWith size).version = encoding.version := by
    rw [Encoding.openedWith]
    split <;> rfl
  simp only [parameters, map_bind, map_pure, apply_ite (openedWith size <$> ·), hversion,
    paths_openedWith]
  rfl

/-- What stands behind the version and the size of addresses. -/
def readBehindVersion (encoding : Encoding) : Reader LineProgram := do
  let headerLength ← encoding.format.offset
  let program ← Reader.within headerLength (parameters encoding)
  return { program with code := ← Reader.remaining }

theorem readBehindVersion_openedWith (size : AddressSize) (encoding : Encoding) :
    readBehindVersion (encoding.openedWith size) =
      openedWith size <$> readBehindVersion encoding := by
  have hformat : (encoding.openedWith size).format = encoding.format := by
    rw [Encoding.openedWith]
    split <;> rfl
  simp only [readBehindVersion, hformat, parameters_openedWith, ← Reader.map_within, map_bind,
    bind_map_left, map_pure]
  rfl

theorem read_eq (size : AddressSize) : read size = Reader.sized (fun format => do
    let version ← Reader.word 2
    if version < 2 ∨ 5 < version then throw .unknownVersion
    if version = 5 then do
      let own ← AddressSize.read
      Reader.segmentSize
      readBehindVersion ⟨format, version, own⟩
    else readBehindVersion ⟨format, version, size⟩) := rfl

theorem read_openedWith (size size' : AddressSize) :
    read size' = openedWith size' <$> read size := by
  rw [read_eq, read_eq, Reader.map_sized]
  congr 1
  funext format
  rw [map_bind]
  congr 1
  funext version
  have hbehind (size : AddressSize) :=
    readBehindVersion_openedWith size' ⟨format, version, size⟩
  by_cases hunknown : version < 2 ∨ 5 < version
  · simp only [if_pos hunknown]
    rfl
  simp only [if_neg hunknown]
  by_cases hown : version = 5
  · simp only [if_pos hown, map_bind, ← hbehind, Encoding.openedWith]
  · simp only [if_neg hown, ← hbehind, Encoding.openedWith]

/-- A program that can be decoded can be decoded whatever size of addresses it is opened with. -/
theorem decodeAt_openedWith {lines : Bytes} {size : AddressSize} {offset : Nat}
    {program : LineProgram} (size' : AddressSize) (h : decodeAt lines size offset = .ok program) :
    decodeAt lines size' offset = .ok (program.openedWith size') := by
  rw [decodeAt] at h ⊢
  split at h
  · cases h
  · rename_i hinside
    obtain ⟨⟨_, rest⟩, hread, rfl⟩ := Except.map_eq_ok_iff.mp h
    rw [if_neg hinside, read_openedWith size size']
    exact Except.map_eq_ok_iff.mpr ⟨_, Reader.map_eq_ok_iff.mpr ⟨_, hread, rfl⟩, rfl⟩

end LineProgram

/-- What a unit can say of its source file. That something cannot be decoded is not among it. -/
inductive CompileUnit.FileAnswer (unit : CompileUnit) : Except LookupError SourceFile → Prop
  | nameless (hname : unit.name = none) : FileAnswer unit (.error .notFound)
  | programless {name : Bytes} (hname : unit.name = some name)
      (hprogram : unit.lineProgram = none) : FileAnswer unit (.error .missingLineProgram)
  | file {name : Bytes} {lineProgram : Nat} (hname : unit.name = some name)
      (hprogram : unit.lineProgram = some lineProgram) :
      FileAnswer unit (.ok ⟨name, lineProgram⟩)

namespace Sections

variable {sections : Sections} {unit : CompileUnit} {address : Address} {offset : Nat}

/-- An address outside all indexed ranges has its unit from the scan. -/
theorem scan_of_unitForAddress
    (huncovered : ∀ indexed ∈ sections.indexedRanges.items,
      indexed.range.contains address = false)
    (h : (sections.unitForAddress address).answer = .ok offset) :
    (Lookup.firstOf (scanStep address) sections.units.items).answer = .ok (some offset) := by
  obtain ⟨indexed, hindexed, -⟩ := Lookup.answer_bind_eq_ok_iff.mp h
  cases indexed with
  | some found =>
      rw [Lookup.answer_search_eq_some_iff, Lookup.answer_firstOf_eq_some_iff] at hindexed
      obtain ⟨before, indexed, behind, hitems, -, hcontains⟩ := hindexed
      rw [huncovered indexed (hitems ▸ List.mem_append_right _ List.mem_cons_self)] at hcontains
      cases hcontains
  | none =>
      have hread := (Lookup.answer_search_eq_none_iff.mp hindexed).1
      rwa [unitForAddress_eq_scan hread huncovered, Lookup.answer_orNotFound_eq_ok_iff,
        Lookup.answer_search_eq_some_iff] at h

/-- The scan stops at a unit that covers the address and hands on its offset. -/
theorem covers_of_scanStep (h : (scanStep address unit).answer = .ok (some offset)) :
    unit.header.offset = offset ∧ unit.root.Covers address := by
  obtain ⟨range, hrange, h⟩ := Lookup.answer_bind_eq_ok_iff.mp h
  rw [Lookup.answer_decode_eq_ok_iff] at hrange
  cases hany : range.any (·.contains address) with
  | false =>
      rw [hany] at h
      cases h
  | true =>
      rw [hany] at h
      cases h
      obtain ⟨found, rfl, hcontains⟩ := (Option.any_eq_true _ _).mp hany
      exact ⟨rfl, found, hrange, hcontains⟩

theorem not_covers_of_scanStep (h : (scanStep address unit).answer = .ok none) :
    ¬unit.root.Covers address := by
  intro hcovers
  cases h.symm.trans (scanStep_of_covers hcovers)

section UnitAt

variable (hunit : sections.unitAt offset = .ok unit)
include hunit

theorem fileAnswer_of_unitAt : unit.FileAnswer (sections.fileForUnit offset).answer := by
  rw [fileForUnit, Lookup.answer_bind_of_ok (Lookup.answer_decode_ok hunit)]
  cases hname : unit.name with
  | none => exact .nameless hname
  | some name =>
      cases hprogram : unit.lineProgram with
      | none => exact .programless hname hprogram
      | some lineProgram => exact .file hname hprogram

theorem name_of_unitAt : unit.name = (Attribute.last .name unit.root.attributes.items).bind
    fun value => (sections.string value).toOption := by
  obtain ⟨header, -, hunit⟩ := Except.bind_eq_ok_iff.mp hunit
  exact (root_of_decodeUnit hunit).2.2

/-- A unit that can be decoded has had its line program opened with its own size of addresses. -/
theorem exists_program_of_unitAt {lineProgram : Nat} (h : unit.lineProgram = some lineProgram) :
    ∃ program, LineProgram.decodeAt sections.lines unit.header.encoding.addressSize lineProgram =
      .ok program := by
  obtain ⟨header, -, hunit⟩ := Except.bind_eq_ok_iff.mp hunit
  obtain ⟨rfl, hcheck⟩ := header_of_decodeUnit hunit
  rw [h] at hcheck
  obtain ⟨program, hprogram, -⟩ := Except.map_eq_ok_iff.mp hcheck
  exact ⟨program, hprogram⟩

end UnitAt

theorem exists_unit_of_fileForUnit {file : SourceFile}
    (h : (sections.fileForUnit offset).answer = .ok file) :
    ∃ unit, sections.unitAt offset = .ok unit ∧ unit.lineProgram = some file.lineProgram := by
  obtain ⟨unit, hunit, -⟩ := Lookup.answer_bind_eq_ok_iff.mp h
  rw [Lookup.answer_decode_eq_ok_iff] at hunit
  have hanswer := fileAnswer_of_unitAt hunit
  rw [h] at hanswer
  cases hanswer with
  | file hname hprogram => exact ⟨unit, hunit, hprogram⟩

/-- Behind a program that can be opened only its rows can be at fault. -/
theorem fault_rows_of_lineForAddress {program : LineProgram} {cause : DecodeError}
    (hprogram : LineProgram.decodeAt sections.lines .eight offset = .ok program)
    (h : (sections.lineForAddress address offset).answer = .error (.format cause)) :
    program.rows.fault = some cause := by
  rw [lineForAddress, Lookup.answer_bind_of_ok (Lookup.answer_decode_ok hprogram)] at h
  dsimp only at h
  split at h
  next => cases h
  next hfault =>
    cases h
    exact hfault
  next => cases h

/-- A unit found for an address that is not indexed is the first one that covers it, and its offset
leads back to it: what is asked for there comes from the same unit, and its file cannot fail to be
decoded; it may only lack a name that can be read, or a line program. A line program that is handed
on with a file can be opened without the unit. Only the size of addresses is then another, unless
the program states its own. -/
theorem handed_offsets_lead_back (sections : Sections) :
    (∀ address offset, (∀ indexed ∈ sections.indexedRanges.items,
        indexed.range.contains address = false) →
      (sections.unitForAddress address).answer = .ok offset →
      ∃ before unit behind, sections.units.items = before ++ unit :: behind ∧
        (∀ other ∈ before, ¬other.root.Covers address) ∧ unit.root.Covers address ∧
        unit.header.offset = offset ∧ sections.unitAt offset = .ok unit ∧
        unit.FileAnswer (sections.fileForUnit offset).answer ∧
        (unit.name = (Attribute.last .name unit.root.attributes.items).bind
          fun value => (sections.string value).toOption) ∧
        ∀ site, (sections.functionForAddress site offset).answer = (Lookup.orNotFound
          (Lookup.search unit.subprograms (sections.functionStep site unit))).answer) ∧
    ∀ offset file, (sections.fileForUnit offset).answer = .ok file →
      ∃ unit program, sections.unitAt offset = .ok unit ∧
        LineProgram.decodeAt sections.lines unit.header.encoding.addressSize file.lineProgram =
          .ok program ∧
        LineProgram.decodeAt sections.lines .eight file.lineProgram =
          .ok (program.openedWith .eight) ∧
        ∀ address cause,
          (sections.lineForAddress address file.lineProgram).answer = .error (.format cause) →
          (program.openedWith .eight).rows.fault = some cause := by
  constructor
  · intro address offset huncovered h
    have hscan := scan_of_unitForAddress huncovered h
    obtain ⟨before, unit, behind, hitems, hbefore, hstep⟩ :=
      Lookup.answer_firstOf_eq_some_iff.mp hscan
    obtain ⟨hoffset, hcovers⟩ := covers_of_scanStep hstep
    have hmem : unit ∈ sections.units.items := by
      rw [hitems]
      exact List.mem_append_right _ List.mem_cons_self
    have hunit : sections.unitAt offset = .ok unit := by
      rw [← hoffset]
      exact unitAt_of_mem_units hmem
    exact ⟨before, unit, behind, hitems, fun other hother => not_covers_of_scanStep
      (hbefore other hother), hcovers, hoffset, hunit, fileAnswer_of_unitAt hunit,
      name_of_unitAt hunit, fun site => answer_functionForAddress_of_unitAt hunit⟩
  · intro offset file h
    obtain ⟨unit, hunit, hlines⟩ := exists_unit_of_fileForUnit h
    obtain ⟨program, hprogram⟩ := exists_program_of_unitAt hunit hlines
    have hopened := LineProgram.decodeAt_openedWith .eight hprogram
    exact ⟨unit, program, hunit, hprogram, hopened, fun address cause =>
      fault_rows_of_lineForAddress hopened⟩

/-- A unit with addresses of four bytes, of sixteen bytes of code and no entries but the first. -/
def narrowUnit (offset : Nat) (name : UInt8) (low : Address) : CompileUnit where
  header := ⟨offset, ⟨.dwarf32, 4, .four⟩, 0, 11,
    [1, name, 0, 0, 0, 0, 0] ++ Bytes.ofNat 4 low.toNat ++ [16]⟩
  table := [⟨1, 0x11, false, [⟨.name, 0x08, none⟩, ⟨.lineProgram, 0x17, none⟩,
    ⟨.lowPc, 0x01, none⟩, ⟨.highPc, 0x0f, none⟩]⟩]
  root := ⟨11, 0x11, ⟨[⟨.name, .string [name]⟩, ⟨.lineProgram, .sectionOffset 0⟩,
    ⟨.lowPc, .address low⟩, ⟨.highPc, .constant 16⟩], none⟩⟩
  name := some [name]
  lineProgram := some 0

/-- Sections that hold two such units, one line program and no index of addresses. -/
def narrowUnits : Sections :=
  { Sections.empty with
    abbreviations := [1, 0x11, 0, 0x03, 0x08, 0x10, 0x17, 0x11, 0x01, 0x12, 0x0f, 0, 0, 0]
    info :=
      Bytes.sized ([4, 0, 0, 0, 0, 0, 4] ++ (narrowUnit 0 97 0x100).header.entries) ++
      Bytes.sized ([4, 0, 0, 0, 0, 0, 4] ++ (narrowUnit 23 98 0x200).header.entries)
    lines := LineCode.program (Bytes.ofText "b") [] }

/-- The offset of the second unit leads back to it, and its line program, written for addresses of
four bytes, is opened with addresses of eight. -/
theorem narrowUnits_lead_back :
    (narrowUnits.unitForAddress 0x208).answer = .ok 23 ∧
    narrowUnits.unitAt 23 = .ok (narrowUnit 23 98 0x200) ∧
    (narrowUnit 23 98 0x200).root.Covers 0x208 ∧
    (narrowUnits.fileForUnit 23).answer = .ok ⟨[98], 0⟩ ∧
    ∃ program, LineProgram.decodeAt narrowUnits.lines .four 0 = .ok program ∧
      LineProgram.decodeAt narrowUnits.lines .eight 0 = .ok (program.openedWith .eight) := by
  have hindex : narrowUnits.indexedRanges = ⟨[], none⟩ := by decide +kernel
  have hfound : (narrowUnits.unitForAddress 0x208).answer = .ok 23 := by decide +kernel
  have hfile : (narrowUnits.fileForUnit 23).answer = .ok ⟨[98], 0⟩ := by decide +kernel
  have hnarrow : narrowUnits.unitAt 23 = .ok (narrowUnit 23 98 0x200) := by decide +kernel
  have huncovered : ∀ indexed ∈ narrowUnits.indexedRanges.items,
      indexed.range.contains 0x208 = false := by
    rw [hindex]
    exact List.forall_mem_nil _
  obtain ⟨hunits, hfiles⟩ := handed_offsets_lead_back narrowUnits
  obtain ⟨_, _, _, _, _, hcovers, -, hunit, -⟩ := hunits _ _ huncovered hfound
  cases hnarrow.symm.trans hunit
  obtain ⟨_, program, hunit, hprogram, hopened, -⟩ := hfiles _ _ hfile
  cases hnarrow.symm.trans hunit
  exact ⟨hfound, hnarrow, hcovers, hfile, program, hprogram, hopened⟩

end Sections

end Symbolizer.Dwarf
