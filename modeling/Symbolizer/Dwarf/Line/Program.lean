import Symbolizer.Dwarf.Attribute

/-! # Line programs

A line program is a header and a run of instructions. The header states how special
instructions are packed; its tables of directories and files must decode but are not
kept. Each instruction is read on its own, with nothing but the header known.
-/

namespace Symbolizer.Dwarf

structure LineProgram where
  encoding : Encoding
  instructionLength : Nat
  /-- How many operations one instruction word holds. -/
  operationCount : Nat
  lineBase : Int
  lineRange : Nat
  opcodeBase : Nat
  /-- How many operands each standard instruction takes. -/
  operandCounts : List Nat
  code : Bytes
  deriving DecidableEq, Repr

namespace LineProgram

/-- Rejects a header field that must not be zero. -/
def nonzero (reason : DecodeError) (field : Reader Nat) : Reader Nat := do
  let n ← field
  if n = 0 then throw reason else pure n

def signedByte : Reader Int := do
  let n ← Reader.byte
  pure (if n < 128 then n else (n : Int) - 256)

/-- One name, unless it is the empty one that ends a list, and then what `more` reads. -/
def listedName (more : Reader Unit) : Reader (Option Unit) := do
  if (← Reader.name) = [] then pure none
  else
    more
    pure (some ())

/-- Directory, time and length of a file. -/
def fileDetails : Reader Unit := discard (Reader.times Reader.uleb 3)

/-- Forms that a path table may use. -/
def pathForms : List Nat :=
  [0x03, 0x04, 0x05, 0x06, 0x07, 0x08, 0x09, 0x0a, 0x0b, 0x0c, 0x0d, 0x0e, 0x0f, 0x17, 0x1a,
    0x1d, 0x1e, 0x1f, 0x25, 0x26, 0x27, 0x28, 0x1f02, 0x1f21]

/-- The content type of a path. -/
def pathContent : Nat := 1

def pathFormat : Reader (Nat × Nat) := do
  let content ← Reader.uleb
  return (content, ← Reader.code)

def pathValue (encoding : Encoding) (form : Nat) : Reader Unit := do
  if form ∈ pathForms then
    discard (Attribute.read encoding ⟨.other 0, form, none⟩)
  else throw .unknownForm

/-- A table of version 5, whose entries have exactly one path each. -/
def pathTable (encoding : Encoding) : Reader Unit := do
  let formats ← Reader.times pathFormat (← Reader.byte)
  if (formats.filter (·.1 = pathContent)).length ≠ 1 then throw .missingPath
  let count ← Reader.uleb
  discard (Reader.times (formats.forM fun format => pathValue encoding format.2) count)

/-- Directories and files. -/
def paths (encoding : Encoding) : Reader Unit := do
  if encoding.version = 5 then
    pathTable encoding
    pathTable encoding
  else
    discard (Reader.many (listedName (pure ())))
    discard (Reader.many (listedName fileDetails))

/-- The part of the header behind its own length. The instructions are not part of it. -/
def parameters (encoding : Encoding) : Reader LineProgram := do
  let instructionLength ← nonzero .zeroInstructionLength Reader.byte
  let operationCount ←
    if 4 ≤ encoding.version then nonzero .zeroOperationCount Reader.byte else pure 1
  discard Reader.byte
  let lineBase ← signedByte
  let lineRange ← nonzero .zeroLineRange Reader.byte
  let opcodeBase ← nonzero .zeroOpcodeBase Reader.byte
  let operandCounts ← Reader.times Reader.byte (opcodeBase - 1)
  paths encoding
  pure ⟨encoding, instructionLength, operationCount, lineBase, lineRange, opcodeBase,
    operandCounts, []⟩

/-- Version 5 states its own size of addresses; before that the caller supplies it. -/
def read (addressSize : AddressSize) : Reader LineProgram :=
  Reader.sized fun format => do
    let version ← Reader.word 2
    if version < 2 ∨ 5 < version then throw .unknownVersion
    let addressSize ←
      if version = 5 then do
        let own ← AddressSize.read
        Reader.segmentSize
        pure own
      else pure addressSize
    let headerLength ← format.offset
    let program ← Reader.within headerLength (parameters ⟨format, version, addressSize⟩)
    return { program with code := ← Reader.remaining }

/-- The program at an offset of the section. -/
def decodeAt (lines : Bytes) (addressSize : AddressSize) (offset : Nat) :
    Except DecodeError LineProgram :=
  if lines.length < offset then .error .endOfInput
  else Prod.fst <$> (read addressSize).run (lines.drop offset)

end LineProgram

inductive LineInstruction
  /-- An instruction without operands, given by how far it lies above the first of its kind. -/
  | special (step : Nat)
  | copy
  | advance (operations : Nat)
  | advanceLine (lines : Int)
  | advanceConstant
  | advanceFixed (bytes : Nat)
  | setAddress (address : Address)
  | endSequence
  | noEffect
  deriving DecidableEq, Repr

namespace LineInstruction

def extended (encoding : Encoding) : Reader LineInstruction := do
  match ← Reader.byte with
  | 1 => pure .endSequence
  | 2 => .setAddress <$> encoding.addressSize.address
  | 3 =>
    if encoding.version ≤ 4 then
      discard Reader.name
      LineProgram.fileDetails
    pure .noEffect
  | 4 => do
    discard Reader.uleb
    pure .noEffect
  | _ => pure .noEffect

def standard (operandCounts : List Nat) (opcode : Nat) : Reader LineInstruction := do
  match opcode with
  | 1 => pure .copy
  | 2 => .advance <$> Reader.uleb
  | 3 => .advanceLine <$> Reader.sleb
  | 4 | 5 | 12 => do
    discard Reader.uleb
    pure .noEffect
  | 6 | 7 | 10 | 11 => pure .noEffect
  | 8 => pure .advanceConstant
  | 9 => .advanceFixed <$> Reader.word 2
  | _ => do
    discard (Reader.times Reader.uleb (operandCounts.getD (opcode - 1) 0))
    pure .noEffect

/-- The special instructions start where the header says, even below the last standard one. -/
def read (program : LineProgram) : Reader LineInstruction := do
  let opcode ← Reader.byte
  if opcode = 0 then Reader.within (← Reader.uleb) (extended program.encoding)
  else if program.opcodeBase ≤ opcode then pure (.special (opcode - program.opcodeBase))
  else standard program.operandCounts opcode

end LineInstruction

def LineProgram.instructions (program : LineProgram) : Decoded LineInstruction :=
  .unfold (fun _ => some <$> LineInstruction.read program) 0 program.code

end Symbolizer.Dwarf
