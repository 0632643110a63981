import Symbolizer.Image

/-! # Images in ELF files

Reads the sections that the boot stage would hand over out of an ELF file. The file
has to be sound as a whole, little-endian, and without compression in the sections
that are wanted; the ones that it lacks are empty.
-/

namespace Symbolizer

inductive ElfError
  | missingMagic
  | unknownMagic
  | header
  | unsupported
  | missingFirstSection
  | programEntrySize
  | programTable
  | sectionEntrySize
  | firstSection
  | sectionTable
  | missingNameTable
  | invalidNameTable
  | nameTableSize
  | symbolData
  | symbolSections
  | sectionIndex
  | stringSectionType
  | stringSection
  | relocationInfo
  | relocationTarget
  | compressedType
  | compressedOffset
  | compressedSize
  | compressionType
  | sectionData
  deriving DecidableEq, Repr

def ElfError.message : ElfError → String
  | missingMagic => "Could not read file magic"
  | unknownMagic => "Unknown file magic"
  | header => "Invalid ELF header size or alignment"
  | unsupported => "Unsupported ELF header"
  | missingFirstSection => "Missing ELF section headers for e_phnum overflow"
  | programEntrySize => "Invalid ELF program header entry size"
  | programTable => "Invalid ELF program header size or alignment"
  | sectionEntrySize => "Invalid ELF section header entry size"
  | firstSection => "Invalid ELF section header offset or size"
  | sectionTable => "Invalid ELF section header offset/size/alignment"
  | missingNameTable => "Missing ELF e_shstrndx"
  | invalidNameTable => "Invalid ELF e_shstrndx"
  | nameTableSize => "Invalid ELF shstrtab size"
  | symbolData => "Invalid ELF symbol table data"
  | symbolSections => "Invalid ELF symtab_shndx data"
  | sectionIndex => "Invalid ELF section index"
  | stringSectionType => "Invalid ELF string section type"
  | stringSection => "Invalid ELF string section offset or size"
  | relocationInfo => "Invalid ELF sh_info for relocation section"
  | relocationTarget => "Unsupported ELF sh_info for relocation section"
  | compressedType => "Invalid ELF compressed section type"
  | compressedOffset => "Invalid ELF compressed section offset"
  | compressedSize => "Invalid ELF compressed section size"
  | compressionType => "Unsupported ELF compression type"
  | sectionData => "Invalid ELF section size or offset"

/-- Why no image can be had from a file. -/
inductive ImageError
  | missingFile
  | elf (error : ElfError)
  | bigEndian
  | compressed (name : String)
  deriving DecidableEq, Repr

def ImageError.message : ImageError → String
  | missingFile =>
    "IO(Os \x7b code: 2, kind: NotFound, message: \"No such file or directory\" \x7d)"
  | elf error => "Other(Error(\"" ++ error.message ++ "\"))"
  | bigEndian => "BigEndian"
  | compressed name => "CompressedSection(\"" ++ name ++ "\")"

namespace Elf

inductive ByteOrder
  | little
  | big
  deriving DecidableEq, Repr

inductive Width
  | bits32
  | bits64
  deriving DecidableEq, Repr

namespace Width

def headerSize : Width → Nat
  | bits32 => 52
  | bits64 => 64

def programHeaderSize : Width → Nat
  | bits32 => 32
  | bits64 => 56

def sectionHeaderSize : Width → Nat
  | bits32 => 40
  | bits64 => 64

def compressionHeaderSize : Width → Nat
  | bits32 => 12
  | bits64 => 24

def symbolSize : Width → Nat
  | bits32 => 16
  | bits64 => 24

end Width

/-- The number in a field of given offset and width. -/
def field (order : ByteOrder) (bytes : Bytes) (offset width : Nat) : Nat :=
  let piece := (bytes.drop offset).take width
  Bytes.toNat <| match order with
    | .little => piece
    | .big => piece.reverse

structure Header where
  width : Width
  order : ByteOrder
  programTable : Nat
  programHeaderSize : Nat
  programCount : Nat
  sectionTable : Nat
  sectionHeaderSize : Nat
  sectionCount : Nat
  nameTable : Nat
  deriving DecidableEq, Repr

structure Section where
  name : Nat
  kind : Nat
  flags : Nat
  offset : Nat
  size : Nat
  link : Nat
  info : Nat
  deriving DecidableEq, Repr

def symbolTableKind : Nat := 2
def stringTableKind : Nat := 3
def relocationsWithAddendsKind : Nat := 4
def absentKind : Nat := 8
def relocationsKind : Nat := 9
def dynamicSymbolsKind : Nat := 11
def symbolSectionsKind : Nat := 18
def compactRelocationsKind : Nat := 0x40000014
def compressedFlag : Nat := 0x800

/-- In place of a number that may not fit: it is found in the first section. -/
def extendedIndex : Nat := 0xffff

def Header.decode (width : Width) (order : ByteOrder) (file : Bytes) : Header :=
  let field := field order file
  match width with
  | .bits32 => ⟨width, order, field 28 4, field 42 2, field 44 2, field 32 4, field 46 2,
      field 48 2, field 50 2⟩
  | .bits64 => ⟨width, order, field 32 8, field 54 2, field 56 2, field 40 8, field 58 2,
      field 60 2, field 62 2⟩

def Header.read (file : Bytes) : Except ElfError Header := do
  if file.length < 16 then throw .missingMagic
  let width ← match file.take 5 with
    | [0x7f, 0x45, 0x4c, 0x46, 1] => pure Width.bits32
    | [0x7f, 0x45, 0x4c, 0x46, 2] => pure Width.bits64
    | _ => throw .unknownMagic
  if file.length < width.headerSize then throw .header
  match (file.drop 5).take 2 with
  | [1, 1] => pure (decode width .little file)
  | [2, 1] => pure (decode width .big file)
  | _ => throw .unsupported

def Section.decode (header : Header) (bytes : Bytes) : Section :=
  let field := field header.order bytes
  match header.width with
  | .bits32 => ⟨field 0 4, field 4 4, field 8 4, field 16 4, field 20 4, field 24 4, field 28 4⟩
  | .bits64 => ⟨field 0 4, field 4 4, field 8 8, field 24 8, field 32 8, field 40 4, field 44 4⟩

/-- Whether a piece lies in the file. An empty one does wherever it is said to be. -/
def inBounds (file : Bytes) (offset size : Nat) : Bool :=
  size = 0 || offset + size ≤ file.length

def Header.checkSectionSize (header : Header) : Except ElfError Unit :=
  if header.sectionHeaderSize = header.width.sectionHeaderSize then .ok ()
  else .error .sectionEntrySize

/-- The first section, which may hold what the header has no room for. -/
def firstSection (file : Bytes) (header : Header) : Except ElfError Section := do
  header.checkSectionSize
  if inBounds file header.sectionTable header.width.sectionHeaderSize then
    pure (.decode header (file.drop header.sectionTable))
  else throw .firstSection

/-- Checks the table of program headers. Nothing else is read from it. -/
def checkPrograms (file : Bytes) (header : Header) : Except ElfError Unit := do
  if header.programTable = 0 then return
  let count ←
    if header.programCount = extendedIndex then
      if header.sectionTable = 0 then throw .missingFirstSection
      Section.info <$> firstSection file header
    else pure header.programCount
  if count = 0 then return
  let size := header.width.programHeaderSize
  if header.programHeaderSize ≠ size then throw .programEntrySize
  if !inBounds file header.programTable (count * size) then throw .programTable

def readSections (file : Bytes) (header : Header) : Except ElfError (List Section) := do
  if header.sectionTable = 0 then return []
  let count ←
    if header.sectionCount = 0 then Section.size <$> firstSection file header
    else pure header.sectionCount
  if count = 0 then return []
  header.checkSectionSize
  let size := header.width.sectionHeaderSize
  if inBounds file header.sectionTable (count * size) then
    pure <| (List.range count).map fun i =>
      .decode header (file.drop (header.sectionTable + i * size))
  else throw .sectionTable

/-- Where the names of sections are: from an offset of the file to another. -/
structure NameTable where
  first : Nat
  limit : Nat
  deriving DecidableEq, Repr

/-- The table of names, if there are sections and the table is part of the file. -/
def nameTable (file : Bytes) (header : Header) (sections : List Section) :
    Except ElfError (Option NameTable) := do
  if sections = [] then return none
  let index ←
    if header.nameTable = extendedIndex then Section.link <$> firstSection file header
    else pure header.nameTable
  if index = 0 then throw .missingNameTable
  match sections[index]? with
  | none => throw .invalidNameTable
  | some table =>
    if table.kind = absentKind then return none
    if UInt64.size ≤ table.offset + table.size then throw .nameTableSize
    return some ⟨table.offset, table.offset + table.size⟩

/-- The name of a section, if the table of names holds it to its end. -/
def sectionName (file : Bytes) (names : Option NameTable) (s : Section) : Option Bytes := do
  let table ← names
  let first := table.first + s.name
  if table.limit ≤ file.length ∧ first ≤ table.limit then
    Prod.fst <$> Bytes.splitZero ((file.take table.limit).drop first)
  else none

/-- The first section of a kind and its number. -/
def findKind (kind : Nat) (sections : List Section) : Option (Section × Nat) :=
  sections.zipIdx.find? (·.1.kind = kind)

/-- Checks the strings that belong to a table of symbols. -/
def checkStrings (sections : List Section) (link : Nat) : Except ElfError Unit := do
  if link ≠ 0 then
    match sections[link]? with
    | none => throw .sectionIndex
    | some strings =>
      if strings.kind ≠ stringTableKind then throw .stringSectionType
      if UInt64.size ≤ strings.offset + strings.size then throw .stringSection

/-- Checks the numbers of sections that do not fit into a table of symbols. They are kept apart,
four bytes to the symbol. -/
def checkSymbolSections (file : Bytes) (sections : List Section) (symbols : Nat) :
    Except ElfError Unit :=
  sections.forM fun s => do
    if s.kind = symbolSectionsKind ∧ s.link = symbols then
      if !inBounds file s.offset s.size || s.size % 4 ≠ 0 then throw .symbolSections

/-- Checks the first table of symbols of a kind, which must hold whole records, and gives its
number, or zero. -/
def checkSymbols (file : Bytes) (header : Header) (sections : List Section) (kind : Nat) :
    Except ElfError Nat := do
  match findKind kind sections with
  | none => pure 0
  | some (table, index) =>
    if !inBounds file table.offset table.size then throw .symbolData
    if table.size % header.width.symbolSize ≠ 0 then throw .symbolData
    checkStrings sections table.link
    checkSymbolSections file sections index
    pure index

/-- Whether a section holds relocations, in whichever of the three forms. -/
def Section.hasRelocations (s : Section) : Bool :=
  s.kind = relocationsKind || s.kind = relocationsWithAddendsKind ||
    s.kind = compactRelocationsKind

/-- Checks that relocations which use the table of symbols apply to a section that holds
none. -/
def checkRelocations (sections : List Section) (symbols : Nat) (s : Section) :
    Except ElfError Unit := do
  if s.hasRelocations ∧ s.link = symbols ∧ s.info ≠ 0 then
    match sections[s.info]? with
    | none => throw .relocationInfo
    | some target => if target.hasRelocations then throw .relocationTarget

/-- A sound file, its sections and where their names are. -/
structure File where
  bytes : Bytes
  header : Header
  sections : List Section
  names : Option NameTable
  deriving DecidableEq, Repr

/-- Relocations are checked from the last section to the first. -/
def File.read (bytes : Bytes) : Except ElfError File := do
  let header ← Header.read bytes
  checkPrograms bytes header
  let sections ← readSections bytes header
  let names ← nameTable bytes header sections
  let symbols ← checkSymbols bytes header sections symbolTableKind
  discard (checkSymbols bytes header sections dynamicSymbolsKind)
  sections.reverse.forM (checkRelocations sections symbols)
  pure ⟨bytes, header, sections, names⟩

namespace File

def findNamed (file : File) (name : String) : Option Section :=
  file.sections.find? fun s =>
    sectionName file.bytes file.names s = some (Bytes.ofText name)

/-- Sections marked as compressed are refused, for one reason or another. -/
def refuseCompressed (file : File) (name : String) (s : Section) : Except ImageError Unit := do
  if s.flags / compressedFlag % 2 = 1 then
    let size := file.header.width.compressionHeaderSize
    if s.kind = absentKind then throw (.elf .compressedType)
    if !inBounds file.bytes s.offset size then throw (.elf .compressedOffset)
    if s.size < size then throw (.elf .compressedSize)
    let format := field file.header.order file.bytes s.offset 4
    if format = 1 ∨ format = 2 then throw (.compressed name)
    throw (.elf .compressionType)

/-- The contents of the first section of a name. -/
def contents (file : File) (name : String) : Except ImageError Bytes := do
  match file.findNamed name with
  | none => pure []
  | some s =>
    file.refuseCompressed name s
    if s.kind = absentKind then return []
    if !inBounds file.bytes s.offset s.size then throw (.elf .sectionData)
    pure ((file.bytes.drop s.offset).take s.size)

end File

end Elf

/-- The image in a file. -/
def Image.ofElf (bytes : Bytes) : Except ImageError Image := do
  let file ← (Elf.File.read bytes).mapError .elf
  if file.header.order = .big then throw .bigEndian
  let addressRanges ← file.contents SectionKind.addressRanges.name
  let abbreviations ← file.contents SectionKind.abbreviations.name
  let info ← file.contents SectionKind.info.name
  let lines ← file.contents SectionKind.lines.name
  let strings ← file.contents SectionKind.strings.name
  let publicNames ← file.contents SectionKind.publicNames.name
  let publicTypes ← file.contents SectionKind.publicTypes.name
  let symbols ← file.contents ".symtab"
  let symbolNames ← file.contents ".strtab"
  pure ⟨⟨addressRanges, abbreviations, info, lines, strings, publicNames, publicTypes⟩,
    symbols, .table symbolNames⟩

end Symbolizer
