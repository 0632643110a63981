import Symbolizer.Proofs.AddressRecords
import Symbolizer.Proofs.NameSources
import Symbolizer.Proofs.SymbolRecords

/-! # Records of functions

Where a file has no debug sections, its table of symbols alone decides what is told of a
function. The table is cut into records of 64-bit files, whatever the file's own width
is, and the first one of a global function of the name counts. So symbols of 64-bit files
are found as they stand, and those of 32-bit files are not.
-/

namespace Symbolizer

namespace SymbolRecord

/-- The record is that of a global function, and at its offset among the names is this one, up to
the zero byte that ends it. -/
structure NamesFunction (strings name : Bytes) (record : SymbolRecord) : Prop where
  binding_eq : record.binding = 1
  kind_eq : record.kind = 2
  zero_not_mem : 0 ∉ name
  name_lies : LiesAt record.name (Bytes.terminated name) strings

theorem namesFunction_iff {strings name : Bytes} {record : SymbolRecord} :
    record.NamesFunction strings name ↔ (record.isGlobalFunction &&
      SymbolNames.nameAt record.name (.table strings) = some name) = true := by
  rw [Bool.and_eq_true, decide_eq_true_iff, SymbolNames.nameAt_eq_some_iff, isGlobalFunction,
    Bool.and_eq_true, decide_eq_true_iff, decide_eq_true_iff]
  constructor
  · rintro ⟨hbinding, hkind, hname, hlies⟩
    exact ⟨⟨hbinding, hkind⟩, hname, hlies⟩
  · rintro ⟨⟨hbinding, hkind⟩, hname, hlies⟩
    exact ⟨hbinding, hkind, hname, hlies⟩

instance (strings name : Bytes) (record : SymbolRecord) :
    Decidable (record.NamesFunction strings name) :=
  decidable_of_iff _ namesFunction_iff.symm

end SymbolRecord

namespace Elf.Width

/-- A record of the table of symbols as files of a width have it. Further fields are not used. -/
def symbolRecord (width : Width) (bytes : Bytes) : SymbolRecord :=
  let field := field .little bytes
  match width with
  | bits32 => ⟨field 0 4, field 12 1 / 16, field 12 1 % 16, UInt64.ofNat (field 4 4)⟩
  | bits64 => ⟨field 0 4, field 4 1 / 16, field 4 1 % 16, UInt64.ofNat (field 8 8)⟩

/-- The whole records of a table of symbols. -/
def symbolRecords (width : Width) (symbols : Bytes) : List SymbolRecord :=
  (List.range (symbols.length / width.symbolSize)).map fun i =>
    width.symbolRecord (symbols.drop (i * width.symbolSize))

/-- The value of the first record of a global function of a name, and zero if there is none. -/
def functionValue (width : Width) (symbols strings name : Bytes) : Address :=
  let record? := (width.symbolRecords symbols).find? fun record =>
    record.NamesFunction strings name
  (record?.map SymbolRecord.value).getD 0

theorem symbolRecords_of_le (width : Width) {symbols : Bytes}
    (h : width.symbolSize ≤ symbols.length) : width.symbolRecords symbols =
      width.symbolRecord symbols :: width.symbolRecords (symbols.drop width.symbolSize) := by
  have hsize : 0 < width.symbolSize := by cases width <;> decide
  have hcount : symbols.length / width.symbolSize =
      (symbols.drop width.symbolSize).length / width.symbolSize + 1 := by
    rw [List.length_drop, Nat.div_eq_sub_div hsize h]
  rw [symbolRecords, hcount, List.range_succ_eq_map, List.map_cons, List.map_map, symbolRecords]
  congr 2
  · rw [Nat.zero_mul, List.drop_zero]
  · funext i
    rw [Function.comp_apply, List.drop_drop, Nat.succ_mul, Nat.add_comm]

theorem symbolRecords_of_lt (width : Width) {symbols : Bytes}
    (h : symbols.length < width.symbolSize) : width.symbolRecords symbols = [] := by
  rw [symbolRecords, Nat.div_eq_of_lt h]
  rfl

end Elf.Width

namespace SymbolRecord

theorem decode_take (bytes : Bytes) :
    decode (bytes.take size) = Elf.Width.bits64.symbolRecord bytes := by
  simp [decode, size, Elf.Width.symbolRecord, Elf.field, List.drop_take, List.take_take]

/-- The table of symbols is read as that of a 64-bit file. -/
theorem decodeAll_eq_symbolRecords (bytes : Bytes) :
    decodeAll bytes = Elf.Width.bits64.symbolRecords bytes := by
  fun_induction decodeAll bytes with
  | case1 bytes hle ih =>
      rw [Elf.Width.bits64.symbolRecords_of_le hle, decode_take, ih]
      rfl
  | case2 bytes hlt =>
      exact (Elf.Width.bits64.symbolRecords_of_lt (Nat.lt_of_not_le hlt)).symm

end SymbolRecord

namespace Elf.File

theorem contents_of_findNamed_eq_none {file : File} {name : String}
    (h : file.findNamed name = none) : file.contents name = .ok [] := by
  rw [contents, h]
  rfl

end Elf.File

/-- An image holds the sections of its file. -/
structure Image.HasSections (image : Image) (file : Elf.File) : Prop where
  order : file.header.order = .little
  contents : ∀ kind : SectionKind, file.contents kind.name = .ok (image.sections.get kind)
  symbols : file.contents ".symtab" = .ok image.symbols
  symbolNames : ∃ strings, file.contents ".strtab" = .ok strings ∧
    image.symbolNames = .table strings

theorem Image.hasSections_of_ofElf {bytes : Bytes} {file : Elf.File} {image : Image}
    (hfile : Elf.File.read bytes = .ok file) (h : ofElf bytes = .ok image) :
    image.HasSections file := by
  rw [ofElf, hfile, Except.mapError_ok, Except.ok_bind] at h
  dsimp only at h
  split at h
  next => cases h
  next horder =>
    obtain ⟨addressRanges, haddressRanges, h⟩ := Except.bind_eq_ok_iff.mp h
    obtain ⟨abbreviations, habbreviations, h⟩ := Except.bind_eq_ok_iff.mp h
    obtain ⟨info, hinfo, h⟩ := Except.bind_eq_ok_iff.mp h
    obtain ⟨lines, hlines, h⟩ := Except.bind_eq_ok_iff.mp h
    obtain ⟨strings, hstrings, h⟩ := Except.bind_eq_ok_iff.mp h
    obtain ⟨publicNames, hpublicNames, h⟩ := Except.bind_eq_ok_iff.mp h
    obtain ⟨publicTypes, hpublicTypes, h⟩ := Except.bind_eq_ok_iff.mp h
    obtain ⟨symbols, hsymbols, h⟩ := Except.bind_eq_ok_iff.mp h
    obtain ⟨symbolNames, hsymbolNames, h⟩ := Except.bind_eq_ok_iff.mp h
    cases h
    refine ⟨?_, fun kind => ?_, hsymbols, symbolNames, hsymbolNames, rfl⟩
    · cases hown : file.header.order with
      | little => rfl
      | big => exact absurd hown horder
    · cases kind with
      | addressRanges => exact haddressRanges
      | abbreviations => exact habbreviations
      | info => exact hinfo
      | lines => exact hlines
      | strings => exact hstrings
      | publicNames => exact hpublicNames
      | publicTypes => exact hpublicTypes

theorem Dwarf.Sections.eq_empty_of_get {sections : Sections}
    (h : ∀ kind, sections.get kind = []) : sections = .empty := by
  have hget : sections.get = fun _ => [] := funext h
  calc
    sections = ofKinds sections.get := rfl
    _ = .empty := by rw [hget]; rfl

/-- Without debug sections, a name has the address that the table of symbols has for it. -/
theorem Image.start_resolveName_of_empty {image : Image} {strings : Bytes}
    (hsections : image.sections = .empty) (hnames : image.symbolNames = .table strings)
    (name : Bytes) : (image.resolveName name).start.1 =
      .ok (Elf.Width.bits64.functionValue image.symbols strings name) := by
  have hlisted : Dwarf.Sections.empty.indexedNames = ⟨[], none⟩ := by decide +kernel
  have hunits : Dwarf.Sections.empty.units = ⟨[], none⟩ := by decide +kernel
  have hindex : (image.sections.engine.addressByIndex name).answer = .error .notFound := by
    change (image.sections.addressByIndex name).answer = _
    rw [hsections, Dwarf.Sections.addressByIndex, hlisted]
    rfl
  have hscan : (image.sections.engine.addressByScan name).answer = .error .notFound := by
    change (image.sections.addressByScan name).answer = _
    rw [hsections, Dwarf.Sections.addressByScan, hunits]
    rfl
  refine (image.sections.engine.resolveName_yields_named image.symbolTable name).start.trans ?_
  refine Engine.named_eq_ok_iff.mpr (.inr ⟨hindex, .inr ⟨hscan, ?_⟩⟩)
  rw [SymbolTable.find?_eq_record?, SymbolTable.record?, symbolTable, hnames,
    SymbolRecord.decodeAll_eq_symbolRecords, Elf.Width.functionValue]
  simp only [SymbolRecord.namesFunction_iff, Bool.decide_eq_true]

namespace CommandLine

/-- The record of a function, told by its value. -/
def functionRecord (name : String) (value : Address) : String :=
  if value = 0 then name ++ ": not found" else name ++ " = " ++ Hex.padded value

theorem exists_printFunction {image : Image} {name : String} {value : Address}
    (h : (image.resolveName (Bytes.ofText name)).start.1 = .ok value) :
    ∃ log, printFunction image name = ⟨[functionRecord name value], log, .success⟩ := by
  refine ⟨(image.resolveName (Bytes.ofText name)).start.2.log, ?_⟩
  have hstart : (image.resolveName (Bytes.ofText name)).start = (.ok value, _) := Prod.ext h rfl
  rw [printFunction, hstart]
  rfl

theorem parse_function (path name : String) :
    parse ["-k", path, "func", "--", name] =
      .ok (.run ⟨path, none, false, .functions [name]⟩) := by
  simp [parse, parseOptions, asksForHelp, endOfOptions, valueOption?, Given.setFile,
    Given.nothing, Given.parseCommand, parsePositionals, Given.request, anyAsksForHelp,
    Except.ok_bind]

/-- What a run prints that is asked for functions. -/
theorem run_of_functions {bytes : Bytes} {image : Image} (himage : Image.ofElf bytes = .ok image)
    {value : String → Address}
    (hvalue : ∀ name, (image.resolveName (Bytes.ofText name)).start.1 = .ok (value name))
    {openFile : String → Option Bytes} {arguments : List String} {options : Options}
    {names : List String} (hparse : parse arguments = .ok (.run options))
    (hcommand : options.command = .functions names) (hopen : openFile options.file = some bytes)
    (programName : String) : (run programName openFile arguments).ending.exitCode = 0 ∧
      (run programName openFile arguments).records =
        names.map fun name => functionRecord name (value name) := by
  choose log hprint using fun name => exists_printFunction (hvalue name)
  obtain ⟨hending, hrecords⟩ := Output.sequence_of_success
    (fun name => ⟨congrArg Output.ending (hprint name), congrArg Output.records (hprint name)⟩)
    names
  rw [run, hparse]
  simp only [hopen, himage, hcommand, answer]
  split
  · exact ⟨congrArg Ending.exitCode hending, hrecords⟩
  · exact ⟨congrArg Ending.exitCode hending, hrecords⟩

/-- Asked for functions of a readable file without debug sections, a run ends well and prints one
record for each, in order. It tells the value of the first record of a global function of exactly
this name, unless that is zero, and otherwise that there is none; records are those of 64-bit files,
whatever the width of the file. -/
theorem run_functions {bytes : Bytes} {file : Elf.File} {image : Image}
    (hfile : Elf.File.read bytes = .ok file) (himage : Image.ofElf bytes = .ok image)
    (hplain : ∀ kind : SectionKind, file.findNamed kind.name = none) :
    ∃ symbols strings, file.contents ".symtab" = .ok symbols ∧
      file.contents ".strtab" = .ok strings ∧ file.header.order = .little ∧
      (∀ programName openFile arguments options names,
        parse arguments = .ok (.run options) →
        options.command = .functions names →
        openFile options.file = some bytes →
        (run programName openFile arguments).ending.exitCode = 0 ∧
        (run programName openFile arguments).records = names.map fun name => functionRecord name
          (Elf.Width.bits64.functionValue symbols strings (Bytes.ofText name))) ∧
      ∀ programName openFile path name, openFile path = some bytes →
        (run programName openFile ["-k", path, "func", "--", name]).records =
          [functionRecord name
            (Elf.Width.bits64.functionValue symbols strings (Bytes.ofText name))] := by
  obtain ⟨horder, hcontents, hsymbols, strings, hstrings, hnames⟩ :=
    Image.hasSections_of_ofElf hfile himage
  have hsections : image.sections = .empty := by
    apply Dwarf.Sections.eq_empty_of_get
    intro kind
    have hnone := Elf.File.contents_of_findNamed_eq_none (hplain kind)
    rw [hcontents kind] at hnone
    exact Except.ok.inj hnone
  have hrun {arguments : List String} {options : Options} {names : List String}
      (hparse : parse arguments = .ok (.run options))
      (hcommand : options.command = .functions names)
      {openFile : String → Option Bytes} (hopen : openFile options.file = some bytes) :=
    run_of_functions himage
      (fun name => Image.start_resolveName_of_empty hsections hnames (Bytes.ofText name))
      hparse hcommand hopen
  refine ⟨image.symbols, strings, hsymbols, hstrings, horder, ?_, ?_⟩
  · intro programName openFile arguments options names hparse hcommand hopen
    exact hrun hparse hcommand hopen programName
  · intro programName openFile path name hopen
    exact (hrun (parse_function path name) rfl hopen programName).2

/-- A word of files of a width. -/
def fileWord : Elf.Width → Nat → Bytes
  | .bits32 => Bytes.ofNat 4
  | .bits64 => Bytes.ofNat 8

def fileHeader (width : Elf.Width) (sectionTable : Nat) : Bytes :=
  let magic : Bytes := [0x7f, 0x45, 0x4c, 0x46]
  let flag : UInt8 := match width with
    | .bits32 => 1
    | .bits64 => 2
  magic ++ [flag, 1, 1] ++ List.replicate 9 0 ++ Bytes.ofNat 2 2 ++ Bytes.ofNat 2 0 ++
    Bytes.ofNat 4 1 ++ fileWord width 0 ++ fileWord width 0 ++ fileWord width sectionTable ++
    Bytes.ofNat 4 0 ++ Bytes.ofNat 2 width.headerSize ++ Bytes.ofNat 2 0 ++ Bytes.ofNat 2 0 ++
    Bytes.ofNat 2 width.sectionHeaderSize ++ Bytes.ofNat 2 3 ++ Bytes.ofNat 2 2

def sectionHeader (width : Elf.Width) (s : Elf.Section) : Bytes :=
  Bytes.ofNat 4 s.name ++ Bytes.ofNat 4 s.kind ++ fileWord width s.flags ++ fileWord width 0 ++
    fileWord width s.offset ++ fileWord width s.size ++ Bytes.ofNat 4 s.link ++
    Bytes.ofNat 4 s.info ++ fileWord width 0 ++ fileWord width 0

/-- An empty record, and that of a global function at 0x1000. -/
def twoSymbols : Elf.Width → Bytes
  | .bits32 => List.replicate 16 0 ++ Bytes.ofNat 4 1 ++ Bytes.ofNat 4 0x1000 ++
    Bytes.ofNat 4 16 ++ [0x12, 0, 1, 0]
  | .bits64 => List.replicate 24 0 ++ Bytes.ofNat 4 1 ++ [0x12, 0, 1, 0] ++
    Bytes.ofNat 8 0x1000 ++ Bytes.ofNat 8 16

/-- The names of the function and of the two sections. -/
def symbolStrings : Bytes :=
  0 :: ["f", ".symtab", ".strtab"].flatMap (fun name => Bytes.terminated (Bytes.ofText name)) ++
    List.replicate 5 0

/-- The sections of a file that holds symbols and names. -/
def symbolSections (width : Elf.Width) : List Elf.Section :=
  let first := width.headerSize
  let second := first + 2 * width.symbolSize
  [⟨0, 0, 0, 0, 0, 0, 0⟩, ⟨3, Elf.symbolTableKind, 0, first, 2 * width.symbolSize, 2, 0⟩,
    ⟨11, Elf.stringTableKind, 0, second, 24, 0, 0⟩]

/-- A file of one function, which has no debug sections. -/
def symbolFile (width : Elf.Width) : Bytes :=
  fileHeader width (width.headerSize + 2 * width.symbolSize + 24) ++ twoSymbols width ++
    symbolStrings ++ (symbolSections width).flatMap (sectionHeader width)

/-- The file as it is read. -/
def symbolFileRead (width : Elf.Width) : Elf.File :=
  let names := width.headerSize + 2 * width.symbolSize
  ⟨symbolFile width, ⟨width, .little, 0, 0, 0, names + 24, width.sectionHeaderSize, 3, 2⟩,
    symbolSections width, some ⟨names, names + 24⟩⟩

def symbolImage (width : Elf.Width) : Image := ⟨.empty, twoSymbols width, .table symbolStrings⟩

theorem read_symbolFile (width : Elf.Width) :
    Elf.File.read (symbolFile width) = .ok (symbolFileRead width) := by
  cases width <;> decide +kernel

theorem ofElf_symbolFile (width : Elf.Width) :
    Image.ofElf (symbolFile width) = .ok (symbolImage width) := by
  cases width <;> decide +kernel

theorem findNamed_symbolFile (width : Elf.Width) (kind : SectionKind) :
    (symbolFileRead width).findNamed kind.name = none := by
  cases width <;> cases kind <;> decide +kernel

/-- In a 64-bit file the function is found, and another is not. -/
theorem symbolFile_records :
    (run "symbolizer" (fun _ => some (symbolFile .bits64))
      ["-k", "kernel", "func", "--", "f"]).records = ["f = 0x0000000000001000"] ∧
    (run "symbolizer" (fun _ => some (symbolFile .bits64))
      ["-k", "kernel", "func", "--", "g"]).records = ["g: not found"] := by
  obtain ⟨symbols, strings, hsymbols, hstrings, -, -, hrun⟩ :=
    run_functions (read_symbolFile .bits64) (ofElf_symbolFile .bits64)
      (findNamed_symbolFile .bits64)
  obtain ⟨-, -, hown, names, hnames, htable⟩ :=
    Image.hasSections_of_ofElf (read_symbolFile .bits64) (ofElf_symbolFile .bits64)
  obtain rfl := Except.ok.inj (hsymbols.symm.trans hown)
  obtain rfl := Except.ok.inj (hstrings.symm.trans hnames)
  obtain rfl := SymbolNames.table.inj htable
  have hfunction : Elf.Width.bits64.functionValue (twoSymbols .bits64) symbolStrings
      (Bytes.ofText "f") = 0x1000 := by decide +kernel
  have hother : Elf.Width.bits64.functionValue (twoSymbols .bits64) symbolStrings
      (Bytes.ofText "g") = 0 := by decide +kernel
  constructor
  · refine (hrun _ _ "kernel" "f" rfl).trans ?_
    rw [symbolImage, hfunction]
    decide +kernel
  · refine (hrun _ _ "kernel" "g" rfl).trans ?_
    rw [symbolImage, hother]
    decide +kernel

/-- In a 32-bit file, whose symbols are whole records of its own width, the function is not
found. -/
theorem narrow_symbolFile_not_found :
    ∃ file image symbols strings, Elf.File.read (symbolFile .bits32) = .ok file ∧
      Image.ofElf (symbolFile .bits32) = .ok image ∧
      (∀ kind : SectionKind, file.findNamed kind.name = none) ∧
      file.contents ".symtab" = .ok symbols ∧ file.contents ".strtab" = .ok strings ∧
      file.header.order = .little ∧ file.header.width.symbolSize ∣ symbols.length ∧
      functionRecord "f" (file.header.width.functionValue symbols strings (Bytes.ofText "f")) =
        "f = 0x0000000000001000" ∧
      (run "symbolizer" (fun _ => some (symbolFile .bits32))
        ["-k", "kernel", "func", "f"]).records = ["f: not found"] := by
  obtain ⟨horder, -, hsymbols, strings, hstrings, htable⟩ :=
    Image.hasSections_of_ofElf (read_symbolFile .bits32) (ofElf_symbolFile .bits32)
  obtain rfl := SymbolNames.table.inj htable
  exact ⟨_, _, _, _, read_symbolFile .bits32, ofElf_symbolFile .bits32,
    findNamed_symbolFile .bits32, hsymbols, hstrings, horder, by decide, by decide +kernel,
    by decide +kernel⟩

end CommandLine

end Symbolizer
