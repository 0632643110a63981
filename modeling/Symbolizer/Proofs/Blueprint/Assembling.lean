import Symbolizer.Proofs.Blueprint.Conditions

/-! # Which blueprints are assembled

Assembling stops at the first check that fails. None does where names hold no zero, rows
are in order, lists hold no empty range, and sections are short enough for the offsets in
them.
-/

namespace Symbolizer

theorem BlueprintError.require_eq_ok_iff {condition : Prop} [Decidable condition]
    {error : BlueprintError} {done : Unit} : require condition error = .ok done ↔ condition := by
  rw [require]
  split
  · exact iff_of_true rfl ‹_›
  · exact iff_of_false nofun ‹_›

open BlueprintError (require_eq_ok_iff)

namespace LineCode

theorem lineStep_lt (lines : Int) : (lineStep lines).2 < lineRange := by
  rw [lineStep]
  split
  · rename_i hnear
    rw [lineBase, lineRange] at hnear ⊢
    omega
  · change neutralStep < lineRange
    decide

/-- A row that does not descend is accepted, if the advance is far from overflowing. -/
theorem checkRow_eq_ok (lines : Int) {offset next : Nat} (hle : offset ≤ next)
    (hnext : next < 2 ^ 56) : checkRow lines offset next = .ok () := by
  have hstep := lineStep_lt lines
  have hadvance : lineRange * (next - offset) < 2 ^ 60 := by
    rw [lineRange]
    omega
  rw [lineRange] at hstep
  simp only [checkRow, Except.bind_eq_ok_iff, require_eq_ok_iff]
  refine ⟨(), hle, (), Nat.lt_trans hadvance (by decide), ?_⟩
  rw [Dwarf.LineInstruction.specialBase, UInt64.size]
  omega

theorem checkRows_eq_ok {length : Nat} (hlength : length < 2 ^ 56) {rows : List RowBlueprint}
    (hascending : rows.Pairwise fun first second => first.offset ≤ second.offset)
    (hinside : ∀ row ∈ rows, row.offset.toNat ≤ length) (line : Nat) {offset : Nat}
    (hoffset : offset ≤ length) (hfirst : ∀ row ∈ rows, offset ≤ row.offset.toNat) :
    checkRows length line offset rows = .ok () := by
  induction rows generalizing line offset with
  | nil => exact require_eq_ok_iff.mpr hoffset
  | cons next rest ih =>
      obtain ⟨hnext, hrest⟩ := List.pairwise_cons.mp hascending
      have hinner := hinside next List.mem_cons_self
      have hrow := checkRow_eq_ok ((next.line.toNat : Int) - line)
        (hfirst next List.mem_cons_self) (Nat.lt_of_le_of_lt hinner hlength)
      rw [checkRows, hrow]
      exact ih hrest (fun row hrow => hinside row (List.mem_cons_of_mem _ hrow)) _ hinner
        fun row hrow => UInt64.le_iff_toNat_le.mp (hnext row hrow)

end LineCode

theorem FunctionBlueprint.Ordered.checkSequence {f : FunctionBlueprint} (h : f.Ordered) :
    LineCode.checkSequence f = .ok () := by
  rw [LineCode.checkSequence]
  split
  · rfl
  · exact LineCode.checkRows_eq_ok h.short h.ascending
      (fun row hrow => UInt64.le_iff_toNat_le.mp (h.inside row hrow)) 1 (Nat.zero_le _)
      fun _ _ => Nat.zero_le _

namespace UnitBlueprint

theorem checkWord_eq_ok_iff {n : Nat} {done : Unit} : checkWord n = .ok done ↔ n < 2 ^ 32 :=
  require_eq_ok_iff

variable {unit : UnitBlueprint}

/-- What a unit has to satisfy before anything is written. -/
theorem check_eq_ok_iff : unit.check = .ok () ↔
    unit.file ≠ [] ∧ 0 ∉ unit.file ∧
      (∀ f ∈ unit.functions, LineCode.checkSequence f = .ok ()) ∧
      (∀ f ∈ unit.functions, f.Bounded) ∧ ∀ f ∈ unit.functions, 0 ∉ f.name := by
  simp only [check, Except.bind_eq_ok_iff, Except.forM_eq_ok_iff, require_eq_ok_iff]
  constructor
  · rintro ⟨_, hne, _, hfile, _, hrows, _, hbounded, hnames⟩
    exact ⟨hne, hfile, hrows, hbounded, hnames⟩
  · rintro ⟨hne, hfile, hrows, hbounded, hnames⟩
    exact ⟨(), hne, (), hfile, (), hrows, (), hbounded, hnames⟩

theorem Named.check_eq_ok (hnamed : unit.Named) (hordered : ∀ f ∈ unit.functions, f.Ordered) :
    unit.check = .ok () :=
  check_eq_ok_iff.mpr ⟨hnamed.file_ne_nil, hnamed.file, fun f hf => (hordered f hf).checkSequence,
    fun f hf => (hordered f hf).bounded, hnamed.functions⟩

/-- The offset of a list of ranges lies among those of the unit. -/
theorem rangeListOffset_lt {f : FunctionBlueprint} (hf : f ∈ unit.functions)
    (hshape : f.shape = .rangeList) (place : UnitPlace) :
    unit.rangeListOffset place f < place.ranges + rangeListSize * unit.rangeLists.length := by
  have hmem : (f.low, f.length) ∈ unit.rangeLists := by
    rw [rangeLists, List.mem_eraseDups]
    exact List.mem_map.mpr ⟨f, List.mem_filter.mpr ⟨hf, decide_eq_true hshape⟩, rfl⟩
  have hlt := List.idxOf_lt_length_of_mem hmem
  rw [rangeListOffset, rangeListSize]
  omega

/-- A unit is written where its sections and its lists of ranges leave room for it. -/
theorem LiesIn.checkParts_eq_ok {sections : Dwarf.Sections} {strings : List Bytes}
    {place : UnitPlace} (hlies : unit.LiesIn sections strings place)
    (hranges : ∀ f ∈ unit.functions, f.shape = .rangeList → f.length ≠ 0)
    (hlists : place.ranges + rangeListSize * unit.rangeLists.length < 2 ^ 32) :
    unit.checkParts strings place = .ok () := by
  have hinfo := Nat.lt_of_le_of_lt hlies.info.le hlies.info_lt
  have habbreviations := Nat.lt_of_le_of_lt hlies.abbreviations.le hlies.abbreviations_lt
  have hlines : place.lines + (unit.assemble strings place).lines.length < 2 ^ 32 :=
    Nat.lt_of_le_of_lt hlies.lines.le hlies.lines_lt
  simp only [checkParts, checkWord_eq_ok_iff, Except.bind_eq_ok_iff, Except.forM_eq_ok_iff,
    require_eq_ok_iff]
  refine ⟨(), by omega, (), by omega, (), ?_, (), ?_, (), fun f hf => ?_, (), fun f hf => ?_,
    by omega⟩
  · intro hany
    obtain ⟨f, hf, hshape⟩ := List.any_eq_true.mp hany
    simp only [Bool.and_eq_true, decide_eq_true_iff] at hshape
    exact hranges f hf hshape.1 hshape.2
  · split <;> omega
  · have hname := (hlies.functionNames f hf).le
    have hlt := hlies.strings_lt
    omega
  · obtain ⟨hmem, hshape⟩ := List.mem_filter.mp hf
    exact Nat.lt_trans (rangeListOffset_lt hmem (of_decide_eq_true hshape) place) hlists

end UnitBlueprint

namespace Blueprint

variable {blueprint : Blueprint}

/-- The size of all lists of ranges, which are not part of the image. -/
def rangeListsSize (blueprint : Blueprint) : Nat :=
  (blueprint.units.map fun unit => rangeListSize * unit.rangeLists.length).sum

theorem le_rangeListsSize {place : UnitPlace} {unit : UnitBlueprint}
    (h : (place, unit) ∈ blueprint.placedUnits) :
    place.ranges + rangeListSize * unit.rangeLists.length ≤ blueprint.rangeListsSize := by
  -- Of the lists only the size is known, so any bytes stand for them.
  have hlies := liesAt_of_mem_placedUnits h UnitPlace.ranges
    (fun parts => List.replicate parts.ranges 0)
    (fun _ _ => by rw [List.length_replicate]; rfl) rfl
  have hle := hlies.le
  simp only [List.length_flatMap, List.length_replicate] at hle
  rw [rangeListsSize, ← map_snd_placedUnits, List.map_map]
  exact hle

/-- A blueprint is assembled if its names hold no zero, its rows are in order in code that does not
wrap around the address space, no list of ranges is empty, and offsets into what is written fit
four bytes. -/
theorem exists_assemble (hshort : blueprint.Short) (hlists : blueprint.rangeListsSize < 2 ^ 32)
    (hnamed : ∀ unit ∈ blueprint.units, unit.Named)
    (hordered : ∀ unit ∈ blueprint.units, ∀ f ∈ unit.functions, f.Ordered)
    (hranges : ∀ unit ∈ blueprint.units, ∀ f ∈ unit.functions, f.shape = .rangeList →
      f.length ≠ 0) : ∃ assembled, blueprint.assemble = .ok assembled := by
  refine ⟨_, assemble_eq_ok_iff.mpr ⟨fun unit hunit => ?_, fun p hp => ?_, rfl⟩⟩
  · exact (hnamed unit hunit).check_eq_ok (hordered unit hunit)
  · exact (hshort.liesIn hp).checkParts_eq_ok (hranges p.2 (mem_of_mem_layOut hp))
      (Nat.lt_of_le_of_lt (le_rangeListsSize hp) hlists)

end Blueprint

end Symbolizer
