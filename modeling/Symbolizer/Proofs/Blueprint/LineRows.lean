import Symbolizer.Dwarf.Engine
import Symbolizer.Proofs.Blueprint.Conditions
import Symbolizer.Proofs.Blueprint.LinePrograms
import Symbolizer.Proofs.Searches

/-! # Rows of blueprints

Running the instructions of a function emits its rows and leaves the registers as they
were at first, so functions do not influence one another's rows. A line is found at an
address in the first function that has a row for it.
-/

namespace Symbolizer

open Dwarf

namespace Dwarf.LineRegisters

/-- From some registers on, the instructions emit the rows and lead to other registers. -/
def Emits (program : LineProgram) (registers : LineRegisters) (instructions : List LineInstruction)
    (rows : List LineRow) (after : LineRegisters) : Prop :=
  ∀ rest, run program registers (instructions ++ rest) =
    (⟨rows, none⟩ : Decoded LineRow).append (run program after rest)

namespace Emits

variable {program : LineProgram} {registers between after : LineRegisters}

theorem nil : Emits program registers [] [] registers := by
  intro rest
  rfl

theorem step {instruction : LineInstruction}
    (h : registers.execute program instruction = .ok (after, none)) :
    Emits program registers [instruction] [] after := by
  intro rest
  rw [List.singleton_append, run, h]
  rfl

theorem row {instruction : LineInstruction} {row : LineRow}
    (h : registers.execute program instruction = .ok (after, some row)) :
    Emits program registers [instruction] [row] after := by
  intro rest
  rw [List.singleton_append, run, h]
  rfl

theorem append {first second : List LineInstruction} {rows more : List LineRow}
    (hfirst : Emits program registers first rows between)
    (hsecond : Emits program between second more after) :
    Emits program registers (first ++ second) (rows ++ more) after := by
  intro rest
  rw [List.append_assoc, hfirst, hsecond, Decoded.append_append]

theorem eq {instructions : List LineInstruction} {rows : List LineRow}
    (h : Emits program registers instructions rows after) :
    run program registers instructions = ⟨rows, none⟩ := by
  have hall := h []
  rwa [List.append_nil, run, Decoded.none_append, Decoded.done, List.append_nil] at hall

/-- Pieces that leave the registers as they found them emit their rows one after another. -/
theorem flatMap {β : Type} {piece : β → List LineInstruction} {rows : β → List LineRow}
    {items : List β}
    (h : ∀ item ∈ items, Emits program registers (piece item) (rows item) registers) :
    Emits program registers (items.flatMap piece) (items.flatMap rows) registers := by
  induction items with
  | nil => exact nil
  | cons item items ih =>
      apply (h item List.mem_cons_self).append
      exact ih fun other hother => h other (List.mem_cons_of_mem _ hother)

end Emits

/-- The registers at an address and a line of code that is not dropped. -/
def live (address line : Nat) : LineRegisters :=
  ⟨UInt64.ofNat address, 0, UInt64.ofNat line, false⟩

end Dwarf.LineRegisters

open LineRegisters

namespace LineCode

section Steps

variable (instructions : List LineInstruction) {address line : Nat}

theorem advance_live {bytes : Nat} (h : address + bytes < 2 ^ 64) (line : Nat) :
    (live address line).advance (decoded instructions) (UInt64.ofNat bytes) =
      .ok (live (address + bytes) line) := by
  have hadd : AddressSize.eight.add (UInt64.ofNat address) (1 * UInt64.ofNat bytes) =
      .ok (UInt64.ofNat (address + bytes)) := by
    rw [UInt64.one_mul, AddressSize.add, if_pos, UInt64.ofNat_add]
    rw [UInt64.toNat_ofNat', UInt64.toNat_ofNat', Nat.mod_eq_of_lt (by omega),
      Nat.mod_eq_of_lt (by omega)]
    exact h
  change (AddressSize.eight.add (UInt64.ofNat address) (1 * UInt64.ofNat bytes) >>= _) = _
  rw [hadd]
  rfl

theorem advanceLine_live {next : Nat} (hline : line < 2 ^ 64) (address : Nat) :
    (live address line).advanceLine ((next : Int) - line) = live address next := by
  have htoNat : (UInt64.ofNat line).toNat = line := by
    rw [UInt64.toNat_ofNat', Nat.mod_eq_of_lt hline]
  rw [advanceLine]
  split
  · rw [live, htoNat, show line - ((next : Int) - line).natAbs = next by omega]
    rfl
  · rw [live, ← UInt64.ofNat_add, show line + ((next : Int) - line).toNat = next by omega]
    rfl

/-- What is left to the special instruction of a row that leads from one line to the next. -/
theorem emits_lineStep (hline : line < 2 ^ 32) (next address : Nat) :
    ∃ between, Emits (decoded instructions) (live address line) (lineStep ((next : Int) - line)).1
        [] (live address between) ∧ between ≤ max line next ∧
      (lineStep ((next : Int) - line)).2 < lineRange ∧
      ((lineStep ((next : Int) - line)).2 : Int) + lineBase = (next : Int) - between := by
  rw [lineStep]
  split
  · rename_i hnear
    rw [lineBase, lineRange] at hnear
    refine ⟨line, Emits.nil, Nat.le_max_left _ _, ?_, ?_⟩
    · rw [lineBase, lineRange]
      omega
    · rw [lineBase]
      omega
  · refine ⟨next, Emits.step ?_, Nat.le_max_right _ _, ?_, ?_⟩
    · rw [execute, advanceLine_live (by omega)]
    · change neutralStep < lineRange
      decide
    · rw [Int.sub_self]
      rfl

/-- What is left to the special instruction of a row that leads so many bytes on. -/
theorem emits_addressStep {step bytes : Nat} (hstep : step < lineRange)
    (h : address + bytes < 2 ^ 64) (line : Nat) :
    ∃ between, Emits (decoded instructions) (live address line) (addressStep step bytes).1
        [] (live between line) ∧ (addressStep step bytes).2 ≤ maxStep ∧
      (addressStep step bytes).2 % lineRange = step ∧
      between + (addressStep step bytes).2 / lineRange = address + bytes := by
  rw [lineRange] at hstep ⊢
  rw [addressStep, lineRange, maxStep]
  split
  · rename_i hnear
    exact ⟨address, Emits.nil, hnear, by omega, by omega⟩
  split
  · rename_i hfar hnear
    rw [constantAdvance] at hnear ⊢
    refine ⟨address + 17, Emits.step ?_, hnear, by omega, by omega⟩
    have hconstant : (255 - (decoded instructions).opcodeBase) / (decoded instructions).lineRange =
        17 := show (255 - LineInstruction.specialBase) / 14 = 17 by decide
    simp only [execute, hconstant]
    rw [advance_live instructions (by omega)]
    rfl
  · refine ⟨address + bytes, Emits.step ?_, by omega, by omega, by omega⟩
    rw [execute, advance_live instructions h]
    rfl

/-- The last instruction of a row makes up for what the others have left. -/
theorem emits_special {step next : Nat} (hline : line < 2 ^ 64)
    (h : address + step / lineRange < 2 ^ 64)
    (hnext : ((step % lineRange : Nat) : Int) + lineBase = (next : Int) - line) :
    Emits (decoded instructions) (live address line)
      [if step = neutralStep then .copy else .special step]
      [⟨UInt64.ofNat (address + step / lineRange), UInt64.ofNat next, false⟩]
      (live (address + step / lineRange) next) := by
  apply Emits.row
  split
  · rename_i hneutral
    rw [hneutral, neutralStep, lineRange, lineBase] at hnext
    obtain rfl : next = line := by omega
    rw [hneutral]
    rfl
  · have hmoved : (live address line).advanceLine (lineBase + (step % lineRange : Nat)) =
        live address next := by
      rw [Int.add_comm, hnext, advanceLine_live hline]
    change ((LineRegisters.advance (decoded instructions) ((live address line).advanceLine
      (lineBase + (step % lineRange : Nat))) (UInt64.ofNat (step / lineRange))) >>= _) = _
    rw [hmoved, advance_live instructions h]
    rfl

theorem emits_row {next bytes : Nat} (hline : line < 2 ^ 32) (hnext : next < 2 ^ 32)
    (h : address + bytes < 2 ^ 64) :
    Emits (decoded instructions) (live address line) (row ((next : Int) - line) bytes)
      [⟨UInt64.ofNat (address + bytes), UInt64.ofNat next, false⟩]
      (live (address + bytes) next) := by
  obtain ⟨middle, hforLine, hmiddle, hrange, hleft⟩ :=
    emits_lineStep instructions hline next address
  obtain ⟨between, hforAddress, _, hmod, hsum⟩ :=
    emits_addressStep instructions hrange h middle
  have hlast := emits_special instructions (by omega) (hsum ▸ h) (hmod.symm ▸ hleft)
  rw [hsum] at hlast
  exact (hforLine.append hforAddress).append hlast

/-- Rows of code of a length from an address on, and the one that ends them. -/
def rowsFrom (low length : Nat) : (line : Nat) → List RowBlueprint → List LineRow
  | line, [] => [⟨UInt64.ofNat (low + length), UInt64.ofNat line, true⟩]
  | _, next :: rest =>
    ⟨UInt64.ofNat (low + next.offset.toNat), UInt64.ofNat next.line.toNat, false⟩ ::
      rowsFrom low length next.line.toNat rest

theorem emits_end {low length offset : Nat} (hoffset : offset ≤ length)
    (h : low + length < 2 ^ 64) :
    Emits (decoded instructions) (live (low + offset) line) (rows length line offset [])
      [⟨UInt64.ofNat (low + length), UInt64.ofNat line, true⟩] initial := by
  have hlast : Emits (decoded instructions) (live (low + length) line) [.endSequence]
      [⟨UInt64.ofNat (low + length), UInt64.ofNat line, true⟩] initial := Emits.row rfl
  rw [rows]
  split
  · rename_i hnone
    obtain rfl : offset = length := by omega
    exact hlast
  · apply Emits.append (Emits.step _) hlast
    rw [execute, advance_live instructions (by omega),
      show low + offset + (length - offset) = low + length by omega]
    rfl

/-- The rows of a function in ascending order are emitted as they are drawn. -/
theorem emits_rows {low length : Nat} (h : low + length < 2 ^ 64) {rows : List RowBlueprint}
    (hinside : ∀ row ∈ rows, row.offset.toNat ≤ length)
    (hascending : rows.Pairwise fun first second => first.offset.toNat ≤ second.offset.toNat)
    (hline : line < 2 ^ 32) {offset : Nat} (hoffset : offset ≤ length)
    (hbehind : ∀ row ∈ rows, offset ≤ row.offset.toNat) :
    Emits (decoded instructions) (live (low + offset) line)
      (LineCode.rows length line offset rows) (rowsFrom low length line rows) initial := by
  -- The registers stand at the row that was emitted last, and no row is left that lies before it.
  induction rows generalizing line offset with
  | nil => exact emits_end instructions hoffset h
  | cons next rest ih =>
      obtain ⟨hfirst, hrest⟩ := List.pairwise_cons.mp hascending
      have hnext := hinside next List.mem_cons_self
      have hadvance := hbehind next List.mem_cons_self
      have hrow := emits_row instructions hline next.line.toNat_lt
        (show low + offset + (next.offset.toNat - offset) < 2 ^ 64 by omega)
      rw [show low + offset + (next.offset.toNat - offset) = low + next.offset.toNat by omega]
        at hrow
      apply hrow.append
      exact ih (fun row hrow => hinside row (List.mem_cons_of_mem _ hrow)) hrest
        next.line.toNat_lt hnext hfirst

end Steps

end LineCode

namespace FunctionBlueprint

variable {f : FunctionBlueprint}

/-- The rows that the sequence of a function emits. -/
def lineRows (f : FunctionBlueprint) : List LineRow :=
  if f.rows = [] then [] else LineCode.rowsFrom f.low.toNat f.length.toNat 1 f.rows

theorem Charted.emits_sequence (h : f.Charted) (instructions : List LineInstruction) :
    Emits (LineCode.decoded instructions) initial (LineCode.sequence f) f.lineRows initial := by
  rw [LineCode.sequence, lineRows]
  split
  · exact Emits.nil
  have hkept := h.kept
  have hset : initial.execute (LineCode.decoded instructions) (.setAddress f.low) =
      .ok (live (f.low.toNat + 0) 1, none) := by
    have hlow : ¬(f.low < initial.address ∨ AddressSize.eight.isTombstone f.low) := by
      rintro (hlow | htombstone)
      · exact absurd hlow (UInt64.not_lt.mpr UInt64.zero_le)
      · exact absurd (of_decide_eq_true htombstone) (Nat.not_le.mpr hkept)
    rw [execute, setAddress, if_neg, Nat.add_zero, live, UInt64.ofNat_toNat]
    · rfl
    · exact hlow
  apply (Emits.step hset).append
  apply LineCode.emits_rows instructions h.bounded
  · exact fun row hrow => UInt64.le_iff_toNat_le.mp (h.inside row hrow)
  · exact h.ascending.imp fun hle => UInt64.le_iff_toNat_le.mp hle
  · decide
  · exact Nat.zero_le _
  · exact fun _ _ => Nat.zero_le _

/-- The line of the first of some rows that an address lies behind but not behind the next one. -/
def lineAmong (low length address : Nat) : List RowBlueprint → Option UInt32
  | [] => none
  | row :: rest =>
    let limit := (rest.head?.map (·.offset.toNat)).getD length
    if low + row.offset.toNat ≤ address ∧ address < low + limit then some row.line
    else lineAmong low length address rest

/-- The line that a function has for an address. -/
def lineAt? (f : FunctionBlueprint) (address : Address) : Option UInt32 :=
  lineAmong f.low.toNat f.length.toNat address.toNat f.rows

theorem reportedLine_ofNat (address : Address) (line : UInt32) (endsSequence : Bool) :
    (LineRow.mk address (UInt64.ofNat line.toNat) endsSequence).reportedLine = line := by
  have hline := line.toNat_lt
  rw [LineRow.reportedLine, UInt32.size, UInt64.toNat_ofNat', Nat.mod_eq_of_lt (by omega),
    Nat.min_eq_left (by omega), UInt32.ofNat_toNat]

/-- A row that ends its sequence describes no address. -/
theorem lineAt_cons_of_endsSequence (address first : Address) (line : UInt64)
    (more : List LineRow) :
    LineRow.lineAt address (⟨first, line, true⟩ :: more) = LineRow.lineAt address more := by
  cases more with
  | nil => rfl
  | cons next more => exact if_neg fun h => h.1 rfl

/-- The rows of a function come first; where none of them describes the address, those behind
them do. -/
theorem lineAt_rowsFrom {low length : Nat} (h : low + length < 2 ^ 64) (address : Address)
    (line : Nat) {rows : List RowBlueprint} (hinside : ∀ row ∈ rows, row.offset.toNat ≤ length)
    (more : List LineRow) :
    LineRow.lineAt address (LineCode.rowsFrom low length line rows ++ more) =
      (lineAmong low length address.toNat rows).or (LineRow.lineAt address more) := by
  induction rows generalizing line with
  | nil => exact lineAt_cons_of_endsSequence address _ _ more
  | cons row rest ih =>
      have hrest := ih row.line.toNat fun other hother =>
        hinside other (List.mem_cons_of_mem _ hother)
      have hrow := hinside row List.mem_cons_self
      -- What follows the row, be it the next one or the end, is where its code ends.
      have hlimit : ∃ behind ends more', LineCode.rowsFrom low length row.line.toNat rest ++ more =
          ⟨UInt64.ofNat (low + (rest.head?.map (·.offset.toNat)).getD length), behind, ends⟩ ::
            more' := by
        cases rest with
        | nil => exact ⟨_, _, _, rfl⟩
        | cons next rest => exact ⟨_, _, _, rfl⟩
      have hnext : (rest.head?.map (·.offset.toNat)).getD length ≤ length := by
        cases rest with
        | nil => exact Nat.le_refl _
        | cons next rest => exact hinside next (List.mem_cons_of_mem _ List.mem_cons_self)
      obtain ⟨behind, ends, more', heq⟩ := hlimit
      rw [LineCode.rowsFrom, List.cons_append, lineAmong]
      rw [heq] at hrest ⊢
      rw [LineRow.lineAt, reportedLine_ofNat, hrest]
      simp only [UInt64.le_iff_toNat_le, UInt64.lt_iff_toNat_lt, UInt64.toNat_ofNat',
        Nat.mod_eq_of_lt (show low + row.offset.toNat < 2 ^ 64 by omega),
        Nat.mod_eq_of_lt
          (show low + (rest.head?.map (·.offset.toNat)).getD length < 2 ^ 64 by omega),
        Bool.false_eq_true, not_false_eq_true, true_and]
      split
      · rfl
      · rfl

theorem Charted.lineAt_lineRows (h : f.Charted) (address : Address) (more : List LineRow) :
    LineRow.lineAt address (f.lineRows ++ more) =
      (f.lineAt? address).or (LineRow.lineAt address more) := by
  rw [lineRows, lineAt?]
  split
  · rename_i hnone
    rw [hnone, lineAmong, Option.none_or]
    rfl
  · apply lineAt_rowsFrom h.bounded
    exact fun row hrow => UInt64.le_iff_toNat_le.mp (h.inside row hrow)

/-- Of a number of functions, the first that has a row for the address tells its line. -/
theorem lineAt_flatMap_lineRows {functions : List FunctionBlueprint}
    (h : ∀ f ∈ functions, f.Charted) (address : Address) :
    LineRow.lineAt address (functions.flatMap lineRows) =
      functions.findSome? (·.lineAt? address) := by
  induction functions with
  | nil => rfl
  | cons f rest ih =>
      rw [List.flatMap_cons, (h f List.mem_cons_self).lineAt_lineRows, List.findSome?_cons,
        ih fun other hother => h other (List.mem_cons_of_mem _ hother)]
      cases f.lineAt? address with
      | none => rfl
      | some line => rfl

end FunctionBlueprint

namespace UnitBlueprint

variable {sections : Sections} {strings : List Bytes} {place : UnitPlace} {unit : UnitBlueprint}

/-- The instructions of all functions. -/
def lineInstructions (unit : UnitBlueprint) : List LineInstruction :=
  unit.functions.flatMap LineCode.sequence

/-- The line program of a unit with entries is decoded where it lies. -/
theorem WrittenIn.decodeAt_lines (hwritten : unit.WrittenIn sections strings place)
    (hnamed : unit.Named) (hentries : unit.hasEntries = true) :
    LineProgram.decodeAt sections.lines .eight place.lines =
      .ok (LineCode.decoded unit.lineInstructions) := by
  have hcode : unit.lineCode = LineCode.program unit.file unit.lineInstructions := by
    rw [lineCode, if_pos hentries, lineInstructions]
  have hplain : unit.lineCode.length < Reader.plainLengthBound + 4 := hwritten.plain.lines
  have hlies := hwritten.lines
  rw [hcode] at hplain hlies
  exact LineCode.decodeAt_program hnamed.file_ne_nil hnamed.file hplain hlies

theorem rows_decoded (hcharted : ∀ f ∈ unit.functions, f.Charted) :
    (LineCode.decoded unit.lineInstructions).rows =
      ⟨unit.functions.flatMap FunctionBlueprint.lineRows, none⟩ := by
  have hlegible : ∀ instruction ∈ unit.lineInstructions, LineCode.Legible instruction := by
    intro instruction hmem
    obtain ⟨f, _, hmem⟩ := List.mem_flatMap.mp hmem
    exact LineCode.legible_sequence f instruction hmem
  have hrun : run (LineCode.decoded unit.lineInstructions) initial unit.lineInstructions =
      ⟨unit.functions.flatMap FunctionBlueprint.lineRows, none⟩ :=
    (Emits.flatMap fun f hf => (hcharted f hf).emits_sequence _).eq
  simp only [LineProgram.rows, LineCode.instructions_decoded hlegible, hrun]
  rw [Decoded.none_append, List.append_nil]

/-- A line is found in the first function of the unit that has a row for the address. -/
theorem WrittenIn.lineForAddress (hwritten : unit.WrittenIn sections strings place)
    (hnamed : unit.Named) (hentries : unit.hasEntries = true)
    (hcharted : ∀ f ∈ unit.functions, f.Charted) (address : Address) :
    (sections.lineForAddress address place.lines).answer =
      (unit.functions.findSome? (·.lineAt? address)).elim (.error .notFound) .ok := by
  rw [Sections.lineForAddress, Lookup.answer_bind_of_ok (Lookup.answer_decode_ok
    (hwritten.decodeAt_lines hnamed hentries))]
  simp only [rows_decoded hcharted, FunctionBlueprint.lineAt_flatMap_lineRows hcharted]
  cases unit.functions.findSome? (·.lineAt? address) with
  | none => rfl
  | some line => rfl

end UnitBlueprint

end Symbolizer
