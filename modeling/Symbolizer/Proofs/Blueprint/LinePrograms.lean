import Symbolizer.Proofs.Blueprint.Entries

/-! # Line programs of blueprints

A line program is read back with its header and its instructions, from wherever in a
section it was written.
-/

namespace Symbolizer

open Dwarf

namespace Dwarf.LineProgram

theorem reads_nonzero {field : Reader Nat} {bytes : Bytes} {n : Nat} (h : field.Reads bytes n)
    (hne : n ≠ 0) (reason : DecodeError) : (nonzero reason field).Reads bytes n := by
  apply h.bind_nil
  rw [if_neg hne]
  exact Reader.Reads.pure n

theorem reads_listedName {text bytes : Bytes} {more : Reader Unit} (hne : text ≠ [])
    (htext : 0 ∉ text) (h : more.Reads bytes ()) :
    (listedName more).Reads (Bytes.terminated text ++ bytes) (some ()) := by
  apply (Reader.Reads.name htext).bind
  rw [if_neg hne]
  exact h.bind_nil (Reader.Reads.pure _)

/-- An empty name ends a list of names. -/
theorem reads_noName (more : Reader Unit) : (listedName more).Reads [0] none := by
  intro rest
  rfl

end Dwarf.LineProgram

namespace LineCode

/-- What is read where the instructions were written as a program. -/
def decoded (instructions : List LineInstruction) : LineProgram where
  encoding := blueprintEncoding
  instructionLength := 1
  operationCount := 1
  lineBase := lineBase
  lineRange := lineRange
  opcodeBase := LineInstruction.specialBase
  operandCounts := operandCounts.map UInt8.toNat
  code := instructions.flatMap LineInstruction.encode

theorem reads_operandCounts : Reader.Reads (Reader.times Reader.byte 12) operandCounts
    (operandCounts.map UInt8.toNat) := by
  have h : Reader.Reads (Reader.times Reader.byte operandCounts.length)
      (operandCounts.flatMap fun count => [count]) (operandCounts.map UInt8.toNat) :=
    Reader.Reads.times fun count _ => Reader.Reads.byte count
  exact h

theorem reads_fileDetails : LineProgram.fileDetails.Reads [0, 0, 0] () := by
  intro rest
  rfl

theorem reads_paths {file : Bytes} (hne : file ≠ []) (hfile : 0 ∉ file) :
    (LineProgram.paths blueprintEncoding).Reads
      ([0] ++ (Bytes.terminated file ++ [0, 0, 0] ++ [0])) () := by
  have hfiles : Reader.Reads (Reader.many (LineProgram.listedName LineProgram.fileDetails))
      ([file].flatMap (fun file => Bytes.terminated file ++ [0, 0, 0]) ++ [0])
      ([file].map fun _ => ()) := by
    apply Reader.many_append _ (LineProgram.reads_noName _)
    intro other hother
    rw [List.mem_singleton.mp hother]
    exact ⟨LineProgram.reads_listedName hne hfile reads_fileDetails, by simp⟩
  rw [List.flatMap_singleton] at hfiles
  have hdirectories := Reader.many_stop (LineProgram.reads_noName (pure ()))
  exact Reader.Reads.bind hdirectories.discard hfiles.discard

/-- The parameters are those of `decoded`, but for the code, which is read later. -/
theorem reads_headerTail {file : Bytes} (hne : file ≠ []) (hfile : 0 ∉ file) :
    (LineProgram.parameters blueprintEncoding).Reads (headerTail file) (decoded []) := by
  have hsplit : headerTail file = [1] ++ ([1] ++ ([1] ++ ([251] ++ ([14] ++ ([13] ++
      (operandCounts ++ ([0] ++ (Bytes.terminated file ++ [0, 0, 0] ++ [0])))))))) := by
    rw [headerTail]
    simp only [List.append_assoc]
    rfl
  rw [hsplit]
  apply (LineProgram.reads_nonzero (Reader.Reads.byte 1) (by decide) _).bind
  apply (LineProgram.reads_nonzero (Reader.Reads.byte 1) (by decide) _).bind
  apply (Reader.Reads.byte 1).discard.bind
  have hlineBase : LineProgram.signedByte.Reads [251] lineBase := fun _ => rfl
  apply hlineBase.bind
  apply (LineProgram.reads_nonzero (Reader.Reads.byte 14) (by decide) _).bind
  apply (LineProgram.reads_nonzero (Reader.Reads.byte 13) (by decide) _).bind
  apply reads_operandCounts.bind
  exact (reads_paths hne hfile).bind_nil (Reader.Reads.pure _)

/-- What lies behind the length of a program. -/
def body (file : Bytes) (instructions : List LineInstruction) : Bytes :=
  Bytes.ofNat 2 4 ++ (Bytes.ofNat 4 (headerTail file).length ++ (headerTail file ++
    instructions.flatMap LineInstruction.encode))

theorem program_eq (file : Bytes) (instructions : List LineInstruction) :
    program file instructions = Bytes.sized (body file instructions) := by
  simp only [program, body, List.append_assoc]

/-- A program is read back if its length is not one that the format keeps for itself. -/
theorem reads_program {file : Bytes} (hne : file ≠ []) (hfile : 0 ∉ file)
    {instructions : List LineInstruction}
    (hlength : (program file instructions).length < Reader.plainLengthBound + 4) :
    (LineProgram.read .eight).Reads (program file instructions) (decoded instructions) := by
  rw [program_eq] at hlength ⊢
  rw [Bytes.sized, List.length_append, Bytes.ofNat_length] at hlength
  have hheader : (headerTail file).length < 2 ^ 32 := by
    simp only [body, List.length_append, Reader.plainLengthBound] at hlength
    omega
  have hversion : Reader.Reads (Reader.word 2) (Bytes.ofNat 2 4) 4 := Reader.Reads.word (by decide)
  have hparameters : Reader.Reads (Reader.within (headerTail file).length
      (LineProgram.parameters ⟨.dwarf32, 4, .eight⟩)) (headerTail file) (decoded []) :=
    Reader.Reads.within (reads_headerTail hne hfile).eq
  refine Reader.Reads.sized (by omega) (?_ : _ = Except.ok (_, []))
  rw [body, hversion.bind_append, if_neg (by decide)]
  simp only [Nat.reduceEqDiff, if_false, pure_bind]
  rw [(Reader.Reads.offset hheader).bind_append, hparameters.bind_append]
  rfl

/-- A program is decoded where it lies in a section. -/
theorem decodeAt_program {file : Bytes} (hne : file ≠ []) (hfile : 0 ∉ file)
    {instructions : List LineInstruction}
    (hlength : (program file instructions).length < Reader.plainLengthBound + 4)
    {lines : Bytes} {offset : Nat} (hlies : LiesAt offset (program file instructions) lines) :
    LineProgram.decodeAt lines .eight offset = .ok (decoded instructions) := by
  have hle := hlies.le
  obtain ⟨rest, hdrop⟩ := hlies.drop
  rw [LineProgram.decodeAt, if_neg (by omega), hdrop]
  change Prod.fst <$> LineProgram.read .eight (program file instructions ++ rest) = _
  rw [reads_program hne hfile hlength]
  rfl

/-- The instruction is not changed by writing it for blueprints. -/
def Legible : LineInstruction → Prop
  | .special step => step ≤ maxStep
  | .advance operations => operations < 2 ^ 64
  | .advanceLine lines => -2 ^ 63 ≤ lines ∧ lines < 2 ^ 63
  | .advanceFixed bytes => bytes < 2 ^ 16
  | _ => True

theorem Legible.read {instruction : LineInstruction} (h : Legible instruction)
    (instructions : List LineInstruction) :
    (LineInstruction.read (decoded instructions)).Reads instruction.encode instruction := by
  cases instruction with
  | special step =>
      rw [Legible, maxStep] at h
      -- The code of the instruction is its step on top of the base that the header states.
      have hopcode : (UInt8.ofNat (LineInstruction.specialBase + step)).toNat =
          LineInstruction.specialBase + step := by
        rw [UInt8.toNat_ofNat', LineInstruction.specialBase]
        omega
      have hspecial : (decoded instructions).opcodeBase ≤ LineInstruction.specialBase + step :=
        Nat.le_add_right _ _
      apply (Reader.Reads.byte _).bind_nil
      rw [hopcode, if_neg (by rw [LineInstruction.specialBase]; omega), if_pos hspecial,
        show LineInstruction.specialBase + step - (decoded instructions).opcodeBase = step from
          Nat.add_sub_cancel_left _ _]
      exact Reader.Reads.pure _
  | copy => exact fun rest => rfl
  | advance operations =>
      apply (Reader.Reads.byte 2).bind
      exact (Reader.Reads.uleb h).map _
  | advanceLine lines =>
      apply (Reader.Reads.byte 3).bind
      exact (Reader.Reads.sleb h.1 h.2).map _
  | advanceConstant => exact fun rest => rfl
  | advanceFixed bytes =>
      apply (Reader.Reads.byte 9).bind
      exact (Reader.Reads.word h).map _
  | setAddress address =>
      apply (Reader.Reads.byte 0).bind
      -- The instruction is behind a field for its length, which is that of a code and an address.
      have hlength : Reader.uleb.Reads [9] 9 := fun rest => rfl
      have hpiece : LineInstruction.extended blueprintEncoding
          ([2] ++ Bytes.ofNat 8 address.toNat) = .ok (.setAddress address, []) :=
        ((Reader.Reads.byte 2).bind ((Reader.Reads.address address).map _)).eq
      rw [if_pos (show UInt8.toNat 0 = 0 from rfl)]
      apply hlength.bind
      have hwithin := Reader.Reads.within hpiece
      rwa [List.length_append, Bytes.ofNat_length] at hwithin
  | endSequence => exact fun rest => rfl
  | noEffect => exact fun rest => rfl

theorem legible_lineStep {lines : Int} (hlow : -2 ^ 63 ≤ lines) (hhigh : lines < 2 ^ 63) :
    (∀ instruction ∈ (lineStep lines).1, Legible instruction) ∧ (lineStep lines).2 ≤ maxStep := by
  rw [lineStep]
  split
  · rename_i hnear
    rw [lineBase, lineRange] at hnear
    refine ⟨nofun, ?_⟩
    rw [lineBase, maxStep]
    omega
  · refine ⟨fun instruction hmem => ?_, ?_⟩
    · rw [List.mem_singleton.mp hmem]
      exact ⟨hlow, hhigh⟩
    · change neutralStep ≤ maxStep
      decide

theorem legible_addressStep {step bytes : Nat} (hstep : step ≤ maxStep) (hbytes : bytes < 2 ^ 64) :
    (∀ instruction ∈ (addressStep step bytes).1, Legible instruction) ∧
      (addressStep step bytes).2 ≤ maxStep := by
  rw [addressStep]
  split
  · rename_i hnear
    exact ⟨nofun, hnear⟩
  split
  · rename_i hnear
    refine ⟨fun instruction hmem => ?_, hnear⟩
    rw [List.mem_singleton.mp hmem]
    trivial
  · refine ⟨fun instruction hmem => ?_, hstep⟩
    rw [List.mem_singleton.mp hmem]
    exact hbytes

theorem row_eq (lines : Int) (bytes : Nat) :
    row lines bytes = (lineStep lines).1 ++ (addressStep (lineStep lines).2 bytes).1 ++
      [if (addressStep (lineStep lines).2 bytes).2 = neutralStep then .copy
        else .special (addressStep (lineStep lines).2 bytes).2] := rfl

theorem legible_row {lines : Int} {bytes : Nat} (hlow : -2 ^ 63 ≤ lines) (hhigh : lines < 2 ^ 63)
    (hbytes : bytes < 2 ^ 64) : ∀ instruction ∈ row lines bytes, Legible instruction := by
  obtain ⟨hforLine, hstep⟩ := legible_lineStep hlow hhigh
  obtain ⟨hforAddress, hlast⟩ := legible_addressStep hstep hbytes
  intro instruction hmem
  rw [row_eq] at hmem
  rcases List.mem_append.mp hmem with hmem | hmem
  · rcases List.mem_append.mp hmem with hmem | hmem
    · exact hforLine instruction hmem
    · exact hforAddress instruction hmem
  · rw [List.mem_singleton.mp hmem]
    split
    · trivial
    · exact hlast

theorem legible_rows {length : Nat} (hlength : length < 2 ^ 64) {line offset : Nat}
    (hline : line < 2 ^ 32) (rows : List RowBlueprint) :
    ∀ instruction ∈ LineCode.rows length line offset rows, Legible instruction := by
  induction rows generalizing line offset with
  | nil =>
      intro instruction hmem
      rcases List.mem_append.mp hmem with hmem | hmem
      · split at hmem
        · cases hmem
        · rw [List.mem_singleton.mp hmem]
          exact Nat.lt_of_le_of_lt (Nat.sub_le _ _) hlength
      · rw [List.mem_singleton.mp hmem]
        trivial
  | cons next rest ih =>
      have hnext := next.line.toNat_lt
      have hoffset := next.offset.toNat_lt
      intro instruction hmem
      rcases List.mem_append.mp hmem with hmem | hmem
      · exact legible_row (by omega) (by omega) (by omega) instruction hmem
      · exact ih hnext instruction hmem

theorem legible_sequence (f : FunctionBlueprint) :
    ∀ instruction ∈ sequence f, Legible instruction := by
  intro instruction hmem
  rw [sequence] at hmem
  split at hmem
  · cases hmem
  · rcases List.mem_cons.mp hmem with heq | hmem
    · rw [heq]
      trivial
    · exact legible_rows f.length.toNat_lt (by decide) _ instruction hmem

theorem encode_ne_nil (instruction : LineInstruction) : instruction.encode ≠ [] := by
  cases instruction <;> exact List.cons_ne_nil _ _

/-- The instructions that were written are read, and nothing else. -/
theorem instructions_decoded {instructions : List LineInstruction}
    (h : ∀ instruction ∈ instructions, Legible instruction) :
    (decoded instructions).instructions = ⟨instructions, none⟩ := by
  have hall : Decoded.Unfolds (fun _ => some <$> LineInstruction.read (decoded instructions)) 0
      (instructions.flatMap LineInstruction.encode) (instructions.map id) :=
    Decoded.Unfolds.flatMap (fun instruction hmem => ((h instruction hmem).read _).map some)
      fun instruction _ => encode_ne_nil instruction
  rw [List.map_id] at hall
  exact hall.eq

end LineCode

end Symbolizer
