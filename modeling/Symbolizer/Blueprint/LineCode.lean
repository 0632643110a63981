import Symbolizer.Blueprint.Basic
import Symbolizer.Dwarf.Line.Program

/-! # Line programs of blueprints

Each function with rows becomes one sequence. Between rows, line and address advance
by a special instruction wherever one is wide enough.
-/

namespace Symbolizer

namespace Dwarf.LineInstruction

/-- The first special opcode of assembled programs. -/
def specialBase : Nat := 13

/-- The instruction in a program of eight-byte addresses whose special ones start at
`specialBase`. -/
def encode : LineInstruction → Bytes
  | special step => [UInt8.ofNat (specialBase + step)]
  | copy => [1]
  | advance operations => 2 :: Leb128.encode operations
  | advanceLine lines => 3 :: Leb128.encodeSigned lines
  | advanceConstant => [8]
  | advanceFixed bytes => 9 :: Bytes.ofNat 2 bytes
  | setAddress address => [0, 9, 2] ++ Bytes.ofNat 8 address.toNat
  | endSequence => [0, 1, 1]
  | noEffect => [6]

end Dwarf.LineInstruction

namespace LineCode

open BlueprintError (require)
open Dwarf (LineInstruction)

/-- Special instructions advance the line by at least this much. -/
def lineBase : Int := -5

/-- They tell apart this many advances of the line. -/
def lineRange : Nat := 14

/-- The step that leaves the line as it is. -/
def neutralStep : Nat := 5

/-- The largest step. -/
def maxStep : Nat := 242

/-- How far the constant advance goes. -/
def constantAdvance : Nat := 17

/-- Advances the line as far as the special instruction cannot, and its step for the rest. -/
def lineStep (lines : Int) : List LineInstruction × Nat :=
  if lineBase ≤ lines ∧ lines < lineBase + lineRange then ([], (lines - lineBase).toNat)
  else ([.advanceLine lines], neutralStep)

/-- Advances the address as far as the special instruction cannot, and its step for the rest. -/
def addressStep (step bytes : Nat) : List LineInstruction × Nat :=
  if step + lineRange * bytes ≤ maxStep then ([], step + lineRange * bytes)
  else if step + lineRange * (bytes - constantAdvance) ≤ maxStep then
    ([.advanceConstant], step + lineRange * (bytes - constantAdvance))
  else ([.advance bytes], step)

/-- The instructions that lead to the next row and emit it. -/
def row (lines : Int) (bytes : Nat) : List LineInstruction :=
  let (forLine, step) := lineStep lines
  let (forAddress, step) := addressStep step bytes
  forLine ++ forAddress ++ [if step = neutralStep then .copy else .special step]

/-- The instructions for rows that follow a line and an offset, and for the end of the
function. -/
def rows (length : Nat) : (line offset : Nat) → List RowBlueprint → List LineInstruction
  | _, offset, [] =>
    (if length - offset = 0 then [] else [.advance (length - offset)]) ++ [.endSequence]
  | line, offset, next :: rest =>
    row ((next.line.toNat : Int) - line) (next.offset.toNat - offset) ++
      rows length next.line.toNat next.offset.toNat rest

/-- The sequence of a function, if it has rows. -/
def sequence (function : FunctionBlueprint) : List LineInstruction :=
  if function.rows = [] then []
  else .setAddress function.low :: rows function.length.toNat 1 0 function.rows

/-- Checks the advance to the next row, in the 64 bits in which it is weighed against a special
instruction. -/
def checkRow (lines : Int) (offset next : Nat) : Except BlueprintError Unit := do
  let advance := lineRange * (next - offset)
  require (offset ≤ next) .descendingOffset
  require (advance < UInt64.size) .productOverflow
  require (LineInstruction.specialBase + (lineStep lines).2 + advance < UInt64.size) .sumOverflow

/-- Checks rows that follow a line and an offset, and the end of the function. -/
def checkRows (length : Nat) : (line offset : Nat) → List RowBlueprint → Except BlueprintError Unit
  | _, offset, [] => require (offset ≤ length) .descendingOffset
  | line, offset, next :: rest => do
    checkRow ((next.line.toNat : Int) - line) offset next.offset.toNat
    checkRows length next.line.toNat next.offset.toNat rest

/-- Checks the rows of a function, if it has any. -/
def checkSequence (function : FunctionBlueprint) : Except BlueprintError Unit :=
  if function.rows = [] then .ok ()
  else checkRows function.length.toNat 1 0 function.rows

/-- How many operands the standard instructions take. -/
def operandCounts : Bytes := [0, 1, 1, 1, 1, 0, 0, 0, 1, 0, 0, 1]

/-- What follows the length of the header: one byte to the instruction, one operation in it,
rows are statements, and the packing of special instructions; no directories, one file. -/
def headerTail (file : Bytes) : Bytes :=
  [1, 1, 1, UInt8.ofNat (256 - 5), UInt8.ofNat lineRange,
    UInt8.ofNat LineInstruction.specialBase] ++ operandCounts ++ [0] ++
    (Bytes.terminated file ++ [0, 0, 0]) ++ [0]

def program (file : Bytes) (instructions : List LineInstruction) : Bytes :=
  let header := headerTail file
  let body := Bytes.ofNat 2 4 ++ Bytes.ofNat 4 header.length ++ header ++
    instructions.flatMap LineInstruction.encode
  Bytes.sized body

end LineCode

/-- Whether the unit has entries besides its first, and with them a line program. -/
def UnitBlueprint.hasEntries (unit : UnitBlueprint) : Bool :=
  !unit.functions.isEmpty || !unit.variableNames.isEmpty

def UnitBlueprint.lineCode (unit : UnitBlueprint) : Bytes :=
  if unit.hasEntries then LineCode.program unit.file (unit.functions.flatMap LineCode.sequence)
  else []

end Symbolizer
