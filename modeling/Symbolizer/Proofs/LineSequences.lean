import Mathlib.Data.List.Chain
import Symbolizer.Dwarf.Engine
import Symbolizer.Proofs.Blueprint.LinePrograms
import Symbolizer.Proofs.Searches

/-! # Rows and sequences

The lookup of a line is shown rows only and takes two successive ones for neighbours in
one sequence unless the first one ends its sequence. Code that counts as dropped has no
rows, not even one that ends its sequence. Behind such a hidden end the lookup takes rows
of different sequences for neighbours, and only there.
-/

namespace Symbolizer.Dwarf

/-- How many sequences a run has ended, and how many of them while their code counted as
dropped, so that no row tells of it. -/
structure SequenceCount where
  ended : Nat
  hidden : Nat
  deriving DecidableEq, Repr

def SequenceCount.after (count : SequenceCount) (registers : LineRegisters) :
    LineInstruction → SequenceCount
  | .endSequence =>
    ⟨count.ended + 1, if registers.dropped then count.hidden + 1 else count.hidden⟩
  | _ => count

/-- A row and what was counted before the instruction that emits it. -/
structure SequencedRow where
  row : LineRow
  count : SequenceCount
  deriving DecidableEq, Repr

namespace SequencedRow

/-- Two successive rows belong to one sequence, and the first one describes the address. -/
def WithinSequence (address : Address) (first next : SequencedRow) : Prop :=
  first.count.ended = next.count.ended ∧ first.row.address ≤ address ∧ address < next.row.address

/-- The first of two successive rows describes the address as far as the rows tell. -/
def BetweenRows (address : Address) (first next : SequencedRow) : Prop :=
  ¬first.row.endsSequence ∧ first.row.address ≤ address ∧ address < next.row.address

instance (address : Address) (first next : SequencedRow) :
    Decidable (WithinSequence address first next) :=
  instDecidableAnd

instance (address : Address) (first next : SequencedRow) :
    Decidable (BetweenRows address first next) :=
  instDecidableAnd

/-- No sequence has ended between two rows without a row that tells. -/
def NoHiddenEnd (first next : SequencedRow) : Prop := first.count.hidden = next.count.hidden

/-- Behind a row that ends its sequence another one has begun. Behind any other row all that may
have ended are sequences whose ends are hidden. -/
def Succeeds (first next : SequencedRow) : Prop :=
  if first.row.endsSequence then first.count.ended < next.count.ended
  else next.count.ended + first.count.hidden = first.count.ended + next.count.hidden

theorem withinSequence_iff {first next : SequencedRow} (h : first.Succeeds next)
    (address : Address) :
    WithinSequence address first next ↔
      BetweenRows address first next ∧ first.NoHiddenEnd next := by
  rw [Succeeds] at h
  rw [WithinSequence, BetweenRows, NoHiddenEnd]
  split at h
  · rename_i hends
    constructor
    · rintro ⟨hsame, -⟩
      omega
    · rintro ⟨⟨hopen, -⟩, -⟩
      exact absurd hends hopen
  · rename_i hopen
    constructor
    · rintro ⟨hsame, hrange⟩
      exact ⟨⟨hopen, hrange⟩, by omega⟩
    · rintro ⟨⟨-, hrange⟩, hkept⟩
      exact ⟨by omega, hrange⟩

end SequencedRow

namespace LineRegisters

/-- A run that counts the sequences it ends. -/
def runSequenced (program : LineProgram) :
    SequenceCount → LineRegisters → List LineInstruction → List SequencedRow
  | _, _, [] => []
  | count, registers, instruction :: rest =>
    match registers.execute program instruction with
    | .error _ => []
    | .ok (after, some row) =>
      ⟨row, count⟩ :: runSequenced program (count.after registers instruction) after rest
    | .ok (after, none) =>
      runSequenced program (count.after registers instruction) after rest

variable {program : LineProgram} {registers after : LineRegisters} {instruction : LineInstruction}

/-- Counting does not change the rows. -/
theorem map_row_runSequenced (program : LineProgram) (count : SequenceCount)
    (registers : LineRegisters) (instructions : List LineInstruction) :
    (runSequenced program count registers instructions).map SequencedRow.row =
      (run program registers instructions).items := by
  induction instructions generalizing count registers with
  | nil => rfl
  | cons instruction rest ih =>
      rw [runSequenced, run]
      cases registers.execute program instruction with
      | error e => rfl
      | ok done =>
          obtain ⟨after, _ | row⟩ := done
          · exact ih _ after
          · exact congrArg (row :: ·) (ih _ after)

/-- The only instruction whose row ends a sequence is the one that ends it. -/
theorem endsSequence_of_execute {row : LineRow}
    (h : registers.execute program instruction = .ok (after, some row)) :
    row.endsSequence ↔ instruction = .endSequence := by
  have hrow {registers : LineRegisters} {ends : Bool} (h : registers.row? ends = some row) :
      row.endsSequence = ends := by
    rw [row?] at h
    split at h
    · cases h
    · cases h
      rfl
  cases instruction with
  | special step =>
      obtain ⟨moved, -, h⟩ := Except.bind_eq_ok_iff.mp h
      simp [hrow (Prod.mk.inj (Except.ok.inj h)).2]
  | copy => simp [hrow (Prod.mk.inj (Except.ok.inj h)).2]
  | endSequence => simp [hrow (Prod.mk.inj (Except.ok.inj h)).2]
  | advance operations =>
      obtain ⟨moved, -, h⟩ := Except.bind_eq_ok_iff.mp h
      cases h
  | advanceConstant =>
      obtain ⟨moved, -, h⟩ := Except.bind_eq_ok_iff.mp h
      cases h
  | advanceFixed bytes =>
      rw [execute] at h
      split at h
      · cases h
      · obtain ⟨moved, -, h⟩ := Except.bind_eq_ok_iff.mp h
        cases h
  | advanceLine lines => cases h
  | setAddress address => cases h
  | noEffect => cases h

theorem after_of_ne (count : SequenceCount) (h : instruction ≠ .endSequence) :
    count.after registers instruction = count := by
  cases instruction <;> first | rfl | exact absurd rfl h

/-- An end that emits no row is counted as hidden. -/
theorem after_of_execute_none (count : SequenceCount)
    (h : registers.execute program instruction = .ok (after, none)) :
    (count.after registers instruction).ended + count.hidden =
      count.ended + (count.after registers instruction).hidden ∧
      count.ended ≤ (count.after registers instruction).ended := by
  by_cases hend : instruction = .endSequence
  · subst hend
    have hdropped : registers.dropped = true := by
      have hrow := (Prod.mk.inj (Except.ok.inj h)).2
      rw [row?] at hrow
      simpa using hrow
    simp only [SequenceCount.after, hdropped, if_true]
    omega
  · simp [after_of_ne count hend]

/-- Up to the first row of a run, all sequences that end do so without a row. -/
theorem count_of_head? {count : SequenceCount} {instructions : List LineInstruction}
    {first : SequencedRow} (h : first ∈ (runSequenced program count registers instructions).head?) :
    first.count.ended + count.hidden = count.ended + first.count.hidden ∧
      count.ended ≤ first.count.ended := by
  -- The instructions in front of that row emit none, so the induction passes over them with
  -- whatever they have counted.
  induction instructions generalizing count registers with
  | nil => cases h
  | cons instruction rest ih =>
      rw [runSequenced] at h
      cases hstep : registers.execute program instruction with
      | error e =>
          rw [hstep] at h
          cases h
      | ok done =>
          obtain ⟨after, _ | row⟩ := done
          · rw [hstep] at h
            have hcount := after_of_execute_none count hstep
            have hfirst := ih h
            omega
          · rw [hstep] at h
            cases h
            exact ⟨rfl, le_rfl⟩

/-- Each row of a run succeeds the one before. -/
theorem isChain_runSequenced (program : LineProgram) (count : SequenceCount)
    (registers : LineRegisters) (instructions : List LineInstruction) :
    (runSequenced program count registers instructions).IsChain SequencedRow.Succeeds := by
  induction instructions generalizing count registers with
  | nil => exact .nil
  | cons instruction rest ih =>
      rw [runSequenced]
      cases hstep : registers.execute program instruction with
      | error e => exact .nil
      | ok done =>
          obtain ⟨after, _ | row⟩ := done
          · exact ih _ after
          · refine List.isChain_cons.mpr ⟨fun next hnext => ?_, ih _ after⟩
            have hnext := count_of_head? hnext
            have hends := endsSequence_of_execute hstep
            rw [SequencedRow.Succeeds]
            -- Only the instruction that ends a sequence counts, and its row says that it ends one.
            split
            · rename_i hrow
              obtain rfl := hends.mp hrow
              exact hnext.2
            · rename_i hrow
              rw [after_of_ne count fun h => hrow (hends.mpr h)] at hnext
              exact hnext.1

end LineRegisters

namespace LineProgram

def sequencedRows (program : LineProgram) : List SequencedRow :=
  LineRegisters.runSequenced program ⟨0, 0⟩ .initial program.instructions.items

/-- All rows but the last, each with the one behind it. -/
def successions (program : LineProgram) : List (SequencedRow × SequencedRow) :=
  program.sequencedRows.zip program.sequencedRows.tail

/-- The first row in the order of the program that is related to the one behind it. -/
def FirstSuccession (program : LineProgram) (related : SequencedRow → SequencedRow → Prop)
    (first next : SequencedRow) : Prop :=
  ∃ before behind, program.successions = before ++ (first, next) :: behind ∧
    (∀ pair ∈ before, ¬related pair.1 pair.2) ∧ related first next

/-- The answer is the line of the first row that is related to the one behind it, or the largest
one that fits, and that there is none if no row is so related. -/
structure AnsweredBy (program : LineProgram) (related : SequencedRow → SequencedRow → Prop)
    (answer : Except LookupError UInt32) : Prop where
  ok_iff : ∀ line, answer = .ok line ↔ ∃ first next,
    program.FirstSuccession related first next ∧ line.toNat = min first.row.line.toNat (2 ^ 32 - 1)
  notFound_iff : answer = .error .notFound ↔
    ∀ pair ∈ program.successions, ¬related pair.1 pair.2

section

variable {program : LineProgram} {related : SequencedRow → SequencedRow → Prop}

theorem map_row_sequencedRows (program : LineProgram) :
    program.sequencedRows.map SequencedRow.row = program.rows.items := by
  rw [sequencedRows, LineRegisters.map_row_runSequenced, rows, Decoded.append]
  split
  · rfl
  · exact (List.append_nil _).symm

theorem succeeds_of_mem_successions {pair : SequencedRow × SequencedRow}
    (h : pair ∈ program.successions) : pair.1.Succeeds pair.2 := by
  have hchain : program.sequencedRows.IsChain SequencedRow.Succeeds :=
    LineRegisters.isChain_runSequenced _ _ _ _
  rw [successions] at h
  generalize program.sequencedRows = rows at h hchain
  induction rows with
  | nil => simp at h
  | cons first rest ih =>
      cases rest with
      | nil => simp at h
      | cons next more =>
          obtain ⟨hfirst, hrest⟩ := List.isChain_cons_cons.mp hchain
          rcases List.mem_cons.mp h with rfl | h
          · exact hfirst
          · exact ih h hrest

theorem toNat_reportedLine (row : LineRow) :
    row.reportedLine.toNat = min row.line.toNat (2 ^ 32 - 1) := by
  rw [LineRow.reportedLine, UInt32.toNat_ofNat', UInt32.size]
  omega

theorem firstSuccession_iff [∀ first next, Decidable (related first next)]
    {first next : SequencedRow} :
    program.FirstSuccession related first next ↔
      (program.successions.find? fun pair => related pair.1 pair.2) = some (first, next) := by
  rw [FirstSuccession, List.find?_eq_some_iff_append]
  simp only [decide_eq_true_iff, Bool.not_eq_true', decide_eq_false_iff_not]
  constructor
  · rintro ⟨before, behind, hrows, hbefore, hrelated⟩
    exact ⟨hrelated, before, behind, hrows, hbefore⟩
  · rintro ⟨hrelated, before, behind, hrows, hbefore⟩
    exact ⟨before, behind, hrows, hbefore, hrelated⟩

namespace FirstSuccession

variable {first next : SequencedRow} (h : program.FirstSuccession related first next)

include h

theorem mem : (first, next) ∈ program.successions := by
  obtain ⟨before, behind, hrows, -, -⟩ := h
  rw [hrows]
  exact List.mem_append_right _ List.mem_cons_self

theorem related_next : related first next := by
  obtain ⟨before, behind, -, -, hrelated⟩ := h
  exact hrelated

/-- The first that is related is also the first in a relation that demands more, if it holds. -/
theorem narrow {narrower : SequencedRow → SequencedRow → Prop}
    (himp : ∀ pair ∈ program.successions, narrower pair.1 pair.2 → related pair.1 pair.2)
    (hfirst : narrower first next) : program.FirstSuccession narrower first next := by
  obtain ⟨before, behind, hrows, hbefore, -⟩ := h
  refine ⟨before, behind, hrows, fun pair hpair hnarrower => ?_, hfirst⟩
  have hmem : pair ∈ program.successions := by
    rw [hrows]
    exact List.mem_append_left _ hpair
  exact hbefore pair hpair (himp pair hmem hnarrower)

end FirstSuccession

theorem answeredBy_iff [∀ first next, Decidable (related first next)]
    {answer : Except LookupError UInt32} :
    program.AnsweredBy related answer ↔
      answer = ((program.successions.find? fun pair => related pair.1 pair.2).map
        (·.1.row.reportedLine)).elim (.error .notFound) .ok := by
  constructor
  · intro h
    cases hfound : program.successions.find? fun pair => related pair.1 pair.2 with
    | none => exact h.notFound_iff.mpr (by simpa using hfound)
    | some pair =>
        exact (h.ok_iff _).mpr
          ⟨pair.1, pair.2, firstSuccession_iff.mpr hfound, toNat_reportedLine _⟩
  · rintro rfl
    constructor
    · intro line
      simp only [firstSuccession_iff, ← toNat_reportedLine, UInt32.toNat_inj]
      cases program.successions.find? fun pair => related pair.1 pair.2 with
      | none => simp
      | some pair =>
          obtain ⟨first, next⟩ := pair
          simp [eq_comm]
    · cases hfound : program.successions.find? fun pair => related pair.1 pair.2 with
      | none => simpa using hfound
      | some pair =>
          have hpair := List.find?_some hfound
          have hmem := List.mem_of_find?_eq_some hfound
          simpa using ⟨_, _, hmem, of_decide_eq_true hpair⟩

/-- Where a relation demands more, its answer is the same unless the first row that is related in
the wider sense is not so in the narrower and has another line than the first that is. -/
theorem AnsweredBy.narrow_iff {narrower : SequencedRow → SequencedRow → Prop}
    [∀ first next, Decidable (related first next)] [∀ first next, Decidable (narrower first next)]
    {answer : Except LookupError UInt32} (h : program.AnsweredBy related answer)
    (himp : ∀ pair ∈ program.successions, narrower pair.1 pair.2 → related pair.1 pair.2) :
    program.AnsweredBy narrower answer ↔
      ∀ first next, program.FirstSuccession related first next → narrower first next ∨
        ∃ own following, program.FirstSuccession narrower own following ∧
          own.row.reportedLine = first.row.reportedLine := by
  constructor
  · intro hown first next hfirst
    have hline := (h.ok_iff _).mpr ⟨first, next, hfirst, toNat_reportedLine _⟩
    obtain ⟨own, following, hsuccession, heq⟩ := (hown.ok_iff _).mp hline
    refine Or.inr ⟨own, following, hsuccession, UInt32.toNat_inj.mp ?_⟩
    rw [heq, toNat_reportedLine]
  · intro hfirst
    rw [answeredBy_iff] at h ⊢
    rw [h]
    cases hfound : program.successions.find? fun pair => related pair.1 pair.2 with
    | none =>
        rw [List.find?_eq_none] at hfound
        have hnone : (program.successions.find? fun pair => narrower pair.1 pair.2) = none := by
          rw [List.find?_eq_none]
          intro pair hpair hnarrower
          exact hfound pair hpair (decide_eq_true (himp pair hpair (of_decide_eq_true hnarrower)))
        rw [hnone]
    | some pair =>
        have hsuccession := firstSuccession_iff.mpr hfound
        rcases hfirst _ _ hsuccession with hnarrower | ⟨own, following, hown, hline⟩
        · rw [firstSuccession_iff.mp (hsuccession.narrow himp hnarrower)]
        · rw [firstSuccession_iff.mp hown]
          exact congrArg Except.ok hline.symm

end

end LineProgram

/-- The search among rows goes through all rows but the last, each with the one behind it. -/
theorem SequencedRow.lineAt_map_row (address : Address) (rows : List SequencedRow) :
    LineRow.lineAt address (rows.map SequencedRow.row) =
      ((rows.zip rows.tail).find? fun pair => BetweenRows address pair.1 pair.2).map
        (·.1.row.reportedLine) := by
  induction rows with
  | nil => rfl
  | cons first rest ih =>
      cases rest with
      | nil => rfl
      | cons next more =>
          change (if BetweenRows address first next then some first.row.reportedLine
            else LineRow.lineAt address ((next :: more).map row)) = _
          rw [ih]
          by_cases hrow : BetweenRows address first next
          · simp [hrow]
          · simp [hrow]

namespace Sections

variable {sections : Sections} {offset : Nat} {program : LineProgram}

theorem answer_lineForAddress
    (hprogram : LineProgram.decodeAt sections.lines .eight offset = .ok program)
    (hread : program.rows.fault = none) (address : Address) :
    (sections.lineForAddress address offset).answer =
      (LineRow.lineAt address program.rows.items).elim (.error .notFound) .ok := by
  rw [lineForAddress, Lookup.answer_bind_of_ok (Lookup.answer_decode_ok hprogram)]
  dsimp only
  rw [hread]
  cases LineRow.lineAt address program.rows.items <;> rfl

/-- A line is told by neighbouring rows. Rows of one sequence are neighbours between which no hidden
end lies, so a line is the one its sequence states unless the first row that describes the
address hides an end behind it and has another line than is stated. -/
theorem lineForAddress_between_rows
    (hprogram : LineProgram.decodeAt sections.lines .eight offset = .ok program)
    (hread : program.rows.fault = none) (address : Address) :
    program.AnsweredBy (SequencedRow.BetweenRows address)
      (sections.lineForAddress address offset).answer ∧
    (∀ pair ∈ program.successions, SequencedRow.WithinSequence address pair.1 pair.2 ↔
      SequencedRow.BetweenRows address pair.1 pair.2 ∧ pair.1.NoHiddenEnd pair.2) ∧
    (program.AnsweredBy (SequencedRow.WithinSequence address)
        (sections.lineForAddress address offset).answer ↔
      ∀ first next, program.FirstSuccession (SequencedRow.BetweenRows address) first next →
        first.NoHiddenEnd next ∨
        ∃ own following,
          program.FirstSuccession (SequencedRow.WithinSequence address) own following ∧
          own.row.reportedLine = first.row.reportedLine) := by
  have hwithin (pair) (hpair : pair ∈ program.successions) :
      SequencedRow.WithinSequence address pair.1 pair.2 ↔
        SequencedRow.BetweenRows address pair.1 pair.2 ∧ pair.1.NoHiddenEnd pair.2 :=
    SequencedRow.withinSequence_iff (LineProgram.succeeds_of_mem_successions hpair) address
  have hbetween : program.AnsweredBy (SequencedRow.BetweenRows address)
      (sections.lineForAddress address offset).answer := by
    rw [LineProgram.answeredBy_iff, answer_lineForAddress hprogram hread,
      ← LineProgram.map_row_sequencedRows, SequencedRow.lineAt_map_row]
    rfl
  refine ⟨hbetween, hwithin, ?_⟩
  rw [hbetween.narrow_iff fun pair hpair hown => ((hwithin pair hpair).mp hown).1]
  refine forall₃_congr fun first next hfirst => or_congr_left ?_
  rw [hwithin _ hfirst.mem, and_iff_right hfirst.related_next]

/-- A sequence that steps back and so hides its end, and another one behind it. -/
def hiddenEnd : List LineInstruction :=
  [.setAddress 0x100, .copy, .setAddress 0x50, .endSequence,
    .setAddress 0x200, .copy, .advance 16, .endSequence]

def hiddenEndSections : Sections :=
  { Sections.empty with lines := LineCode.program (Bytes.ofText "a") hiddenEnd }

/-- The line of the first sequence reaches up to the second one, though no sequence states it. -/
theorem hiddenEnd_leaks :
    (hiddenEndSections.lineForAddress 0x150 0).answer = .ok 1 ∧
      ¬(LineCode.decoded hiddenEnd).AnsweredBy (SequencedRow.WithinSequence 0x150)
        (hiddenEndSections.lineForAddress 0x150 0).answer := by
  have hprogram : LineProgram.decodeAt hiddenEndSections.lines .eight 0 =
      .ok (LineCode.decoded hiddenEnd) := by decide +kernel
  have hrows : (LineCode.decoded hiddenEnd).successions =
    [(⟨⟨0x100, 1, false⟩, ⟨0, 0⟩⟩, ⟨⟨0x200, 1, false⟩, ⟨1, 1⟩⟩),
      (⟨⟨0x200, 1, false⟩, ⟨1, 1⟩⟩, ⟨⟨0x210, 1, true⟩, ⟨1, 1⟩⟩)] := by decide +kernel
  obtain ⟨hbetween, -, -⟩ := lineForAddress_between_rows hprogram (by decide +kernel) 0x150
  have hfirst : (LineCode.decoded hiddenEnd).FirstSuccession (SequencedRow.BetweenRows 0x150)
      ⟨⟨0x100, 1, false⟩, ⟨0, 0⟩⟩ ⟨⟨0x200, 1, false⟩, ⟨1, 1⟩⟩ := by
    rw [LineProgram.firstSuccession_iff, hrows]
    decide
  have hline := (hbetween.ok_iff 1).mpr ⟨_, _, hfirst, by decide⟩
  refine ⟨hline, fun hown => ?_⟩
  have hnone := hown.notFound_iff.mpr (by rw [hrows]; decide)
  rw [hline] at hnone
  cases hnone

end Sections

end Symbolizer.Dwarf
