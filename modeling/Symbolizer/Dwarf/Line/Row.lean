import Symbolizer.Dwarf.Line.Program

/-! # Rows of a line table

Running a line program emits rows in order. A row describes the addresses from its
own up to the next row's, unless it ends its sequence. Code that the linker dropped
has an address that cannot be; no row is emitted for it.
-/

namespace Symbolizer.Dwarf

structure LineRow where
  address : Address
  line : UInt64
  endsSequence : Bool
  deriving DecidableEq, Repr

/-- The line as it is reported: a larger one reads as the largest that fits. -/
def LineRow.reportedLine (row : LineRow) : UInt32 :=
  UInt32.ofNat (min row.line.toNat (UInt32.size - 1))

structure LineRegisters where
  address : Address
  /-- Which operation of an instruction word is meant. -/
  operation : UInt64
  line : UInt64
  /-- Whether the sequence describes code that was dropped. -/
  dropped : Bool
  deriving DecidableEq, Repr

namespace LineRegisters

def initial : LineRegisters := ⟨0, 0, 1, false⟩

/-- A step down stops at zero; a step up wraps. -/
def advanceLine (registers : LineRegisters) (lines : Int) : LineRegisters :=
  if lines < 0 then
    { registers with line := UInt64.ofNat (registers.line.toNat - lines.natAbs) }
  else { registers with line := registers.line + UInt64.ofNat lines.toNat }

/-- Moves on by a number of operations. -/
def advance (program : LineProgram) (registers : LineRegisters) (operations : UInt64) :
    Except DecodeError LineRegisters :=
  if registers.dropped then .ok registers
  else
    let unit := UInt64.ofNat program.instructionLength
    let count := UInt64.ofNat program.operationCount
    let (operation, distance) :=
      if program.operationCount = 1 then (0, unit * operations)
      else
        let total := registers.operation + operations
        (total % count, unit * (total / count))
    do
      let address ← program.encoding.addressSize.add registers.address distance
      .ok { registers with address, operation }

/-- The row that the registers stand for, unless its code was dropped. -/
def row? (registers : LineRegisters) (endsSequence : Bool) : Option LineRow :=
  if registers.dropped then none else some ⟨registers.address, registers.line, endsSequence⟩

/-- An address below the present one, or one that cannot be, drops the rest of the sequence. -/
def setAddress (size : AddressSize) (registers : LineRegisters) (address : Address) :
    LineRegisters :=
  if address < registers.address ∨ size.isTombstone address then
    { registers with dropped := true }
  else { registers with address, operation := 0, dropped := false }

/-- What an instruction does to the registers, and the row that it emits. -/
def execute (program : LineProgram) (registers : LineRegisters) :
    LineInstruction → Except DecodeError (LineRegisters × Option LineRow)
  | .special step => do
    let moved := registers.advanceLine (program.lineBase + step % program.lineRange)
    let after ← moved.advance program (UInt64.ofNat (step / program.lineRange))
    .ok (after, after.row? false)
  | .copy => .ok (registers, registers.row? false)
  | .advance operations => do
    .ok (← registers.advance program (UInt64.ofNat operations), none)
  | .advanceLine lines => .ok (registers.advanceLine lines, none)
  | .advanceConstant => do
    let step := (255 - program.opcodeBase) / program.lineRange
    .ok (← registers.advance program (UInt64.ofNat step), none)
  | .advanceFixed bytes =>
    if registers.dropped then .ok (registers, none)
    else do
      let address ← program.encoding.addressSize.add registers.address (UInt64.ofNat bytes)
      .ok ({ registers with address, operation := 0 }, none)
  | .setAddress address =>
    .ok (registers.setAddress program.encoding.addressSize address, none)
  | .endSequence => .ok (initial, registers.row? true)
  | .noEffect => .ok (registers, none)

/-- The rows that a run of instructions emits. -/
def run (program : LineProgram) : LineRegisters → List LineInstruction → Decoded LineRow
  | _, [] => .done
  | registers, instruction :: rest =>
    match execute program registers instruction with
    | .error e => .failed e
    | .ok (after, some row) => (run program after rest).cons row
    | .ok (after, none) => run program after rest

end LineRegisters

def LineProgram.rows (program : LineProgram) : Decoded LineRow :=
  let instructions := program.instructions
  (LineRegisters.run program .initial instructions.items).append ⟨[], instructions.fault⟩

/-- The line of the first row that describes an address. -/
def LineRow.lineAt (address : Address) : List LineRow → Option UInt32
  | row :: next :: rest =>
    if ¬row.endsSequence ∧ row.address ≤ address ∧ address < next.address then
      some row.reportedLine
    else lineAt address (next :: rest)
  | _ => none

end Symbolizer.Dwarf
