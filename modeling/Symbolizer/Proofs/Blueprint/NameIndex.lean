import Symbolizer.Dwarf.Engine
import Symbolizer.Proofs.Blueprint.Functions

/-! # The index of names of blueprints

A set is read back as the names that it was written for. What it lists of a unit are
functions, which have an address unless it is said by a list of ranges, and variables,
which have none; what it lists of no unit cannot be followed.
-/

namespace Symbolizer

open Dwarf

/-- A set of the index, before it is written. -/
structure NameSetDraft where
  unit : Nat
  size : Nat
  names : List (Bytes × Nat)

namespace NameSetDraft

def encode (draft : NameSetDraft) : Bytes := nameIndexSet draft.unit draft.size draft.names

/-- What the set lists. -/
def items (draft : NameSetDraft) : List IndexedName :=
  draft.names.map fun indexed => ⟨draft.unit, indexed.2, indexed.1⟩

/-- The length is not one that the format keeps for itself, offsets fit and are not zero, and
names hold no zero. -/
structure Legible (draft : NameSetDraft) : Prop where
  plain : draft.encode.length < Reader.plainLengthBound + 4
  unit_lt : draft.unit < 2 ^ 32
  names : ∀ indexed ∈ draft.names, 0 ∉ indexed.1
  offsets : ∀ indexed ∈ draft.names, 0 < indexed.2 ∧ indexed.2 < 2 ^ 32

/-- The bytes of a name and the offset of its entry. -/
def nameCode (indexed : Bytes × Nat) : Bytes :=
  Bytes.ofNat 4 indexed.2 ++ Bytes.terminated indexed.1

/-- The set behind its header. -/
def toSet (draft : NameSetDraft) : NameIndex.Set :=
  ⟨.dwarf32, draft.unit, draft.names.flatMap nameCode ++ Bytes.ofNat 4 0⟩

namespace Legible

variable {draft : NameSetDraft}

theorem reads (h : draft.Legible) : NameIndex.Set.read.Reads draft.encode draft.toSet := by
  have hversion : (Reader.word 2).Reads (Bytes.ofNat 2 2) 2 := Reader.Reads.word (by decide)
  have hunit : Format.dwarf32.offset.Reads (Bytes.ofNat 4 draft.unit) draft.unit :=
    Reader.Reads.offset h.unit_lt
  have hplain := h.plain
  rw [encode, nameIndexSet] at hplain ⊢
  rw [Bytes.sized, List.length_append, Bytes.ofNat_length] at hplain
  refine Reader.Reads.sized (by omega) (?_ : _ = Except.ok (_, []))
  simp only [List.append_assoc]
  rw [hversion.bind_append, if_neg (by decide)]
  change (Format.dwarf32.offset >>= _) _ = _
  rw [hunit.bind_append, (Reader.Reads.offset_mod draft.size).discard.bind_append]
  rfl

theorem reads_name (h : draft.Legible) {indexed : Bytes × Nat} (hmem : indexed ∈ draft.names) :
    draft.toSet.readName.Reads (nameCode indexed)
      (some ⟨draft.unit, indexed.2, indexed.1⟩) := by
  obtain ⟨hpos, hlt⟩ := h.offsets indexed hmem
  have hentry : Format.dwarf32.offset.Reads (Bytes.ofNat 4 indexed.2) indexed.2 :=
    Reader.Reads.offset hlt
  apply hentry.bind
  rw [if_neg (Nat.ne_of_gt hpos)]
  exact (Reader.Reads.name (h.names indexed hmem)).bind_nil (.pure _)

/-- All names of a set are read, up to the zero offset that ends it. -/
theorem indexedNames_eq (h : draft.Legible) :
    draft.toSet.indexedNames = ⟨draft.items, none⟩ := by
  have hall : Decoded.Unfolds (fun _ => draft.toSet.readName) 0
      (draft.names.flatMap nameCode) draft.items :=
    Decoded.Unfolds.flatMap (fun _ hmem => h.reads_name hmem) fun _ _ => List.cons_ne_nil _ _
  exact hall.eq_of_stop rfl

end Legible

end NameSetDraft

/-- What the search in the index asks of a name that is listed. -/
def Dwarf.Sections.indexStep (sections : Sections) (name : Bytes) (indexed : IndexedName) :
    Lookup (Option Address) := do
  if indexed.name ≠ name then pure none
  else
    let unit ← Lookup.decode (sections.unitAt indexed.unit)
    let entry ← Lookup.decode (unit.entryAt indexed.entry)
    match ← Lookup.decode (Subprogram.ofEntry entry) with
    | none =>
      Lookup.tell (.notFunction name)
      pure none
    | some subprogram => subprogram.startOrFirst?

namespace UnitBlueprint

variable {sections : Sections} {strings : List Bytes} {place : UnitPlace} {unit : UnitBlueprint}

/-- The functions that the index lists, each with the offset of the entry that holds its code. -/
def listedFunctions (strings : List Bytes) (place : UnitPlace) (unit : UnitBlueprint) :
    List (Bytes × Nat) :=
  ((unit.placedFunctions strings place).filter (·.2.indexed)).map fun p =>
    (p.2.name, p.2.codeOffset unit.layouts (.stringOffset (stringOffset p.2.name strings)) p.1)

def listedVariables (strings : List Bytes) (place : UnitPlace) (unit : UnitBlueprint) :
    List (Bytes × Nat) :=
  (unit.placedVariables strings place).map fun p => (p.2, p.1)

def listedNames (strings : List Bytes) (place : UnitPlace) (unit : UnitBlueprint) :
    List (Bytes × Nat) :=
  unit.listedFunctions strings place ++ unit.listedVariables strings place

theorem filterMap_indexed_placed (strings : List Bytes) (place : UnitPlace)
    (unit : UnitBlueprint) :
    (unit.placed strings place (unitHeaderSize + (unit.rootCode place).length)).filterMap
      PlacedEntries.indexed = unit.listedNames strings place := by
  rw [placed_eq, List.filterMap_append, List.filterMap_map, List.filterMap_map, listedNames,
    listedFunctions, listedVariables, ← List.filterMap_eq_map, List.filterMap_filter,
    ← List.filterMap_eq_map]
  rfl

theorem nameIndex_assemble : (unit.assemble strings place).nameIndex =
    nameIndexSet place.info (unit.assemble strings place).info.length
      (unit.listedNames strings place) := by
  rw [← filterMap_indexed_placed]
  rfl

/-- The set of the unit. -/
def nameSet (strings : List Bytes) (place : UnitPlace) (unit : UnitBlueprint) : NameSetDraft :=
  ⟨place.info, (unit.assemble strings place).info.length, unit.listedNames strings place⟩

theorem LiesIn.legible_nameSet (hlies : unit.LiesIn sections strings place)
    (hnamed : unit.Named)
    (hplain : (unit.assemble strings place).nameIndex.length < Reader.plainLengthBound + 4) :
    (unit.nameSet strings place).Legible where
  plain := by rwa [nameIndex_assemble] at hplain
  unit_lt := by
    have hle := hlies.info.le
    have hlt := hlies.info_lt
    exact Nat.lt_of_le_of_lt (Nat.le_of_add_right_le hle) hlt
  names := by
    intro indexed hmem
    rcases List.mem_append.mp hmem with hmem | hmem
    · obtain ⟨⟨offset, f⟩, hplaced, rfl⟩ := List.mem_map.mp hmem
      exact hnamed.functions f (mem_of_mem_layOut (List.mem_filter.mp hplaced).1)
    · obtain ⟨⟨offset, name⟩, hplaced, rfl⟩ := List.mem_map.mp hmem
      exact hnamed.variableNames name (mem_of_mem_layOut hplaced)
  offsets := by
    -- An offset of zero would end the set, but all entries lie behind the header of the unit.
    have hlt := hlies.length_entriesCode_lt
    intro indexed hmem
    rcases List.mem_append.mp hmem with hmem | hmem
    · obtain ⟨⟨offset, f⟩, hplaced, rfl⟩ := List.mem_map.mp hmem
      obtain ⟨distance, hoffset, hcode⟩ := liesAt_codeDraft (List.mem_filter.mp hplaced).1
      have hle := hcode.le
      rw [hoffset]
      exact ⟨Nat.lt_add_right _ (by decide), by omega⟩
    · obtain ⟨⟨offset, name⟩, hplaced, rfl⟩ := List.mem_map.mp hmem
      obtain ⟨distance, rfl, hcode⟩ := liesAt_placeVariable hplaced
      have hle := hcode.le
      exact ⟨Nat.lt_add_right _ (by decide), by omega⟩

namespace WrittenIn

variable (hwritten : unit.WrittenIn sections strings place) (hnamed : unit.Named)
  (hbounded : ∀ f ∈ unit.functions, f.Bounded)
include hwritten hnamed hbounded

/-- A function that is listed under the name has its address, if it has one. -/
theorem indexStep_function {offset : Nat} {f : FunctionBlueprint}
    (hmem : (offset, f) ∈ unit.placedFunctions strings place) (name : Bytes) :
    (sections.indexStep name ⟨place.info, f.codeOffset unit.layouts
      (.stringOffset (stringOffset f.name strings)) offset, f.name⟩).answer =
        .ok (f.addressFor? name) := by
  rw [Sections.indexStep, FunctionBlueprint.addressFor?]
  by_cases hname : f.name = name
  · have hentry : Subprogram.ofEntry (unit.subprogramAt strings place (offset, f)).entry =
        .ok (some (unit.subprogramAt strings place (offset, f))) := f.ofEntry_codeDraft _ _ _ _
    rw [if_neg (not_not_intro hname), if_pos hname, Lookup.answer_bind_of_ok
      (Lookup.answer_decode_ok (hwritten.unitAt hnamed hbounded)), Lookup.answer_bind_of_ok
      (Lookup.answer_decode_ok (hwritten.entryAt_codeDraft hmem)), Lookup.answer_bind_of_ok
      (Lookup.answer_decode_ok hentry)]
    exact f.answer_startOrFirst?_codeDraft _ _ _ _
  · rw [if_pos hname, if_neg hname]
    rfl

/-- A variable that is listed under the name is passed over. -/
theorem indexStep_variable {offset : Nat} {variableName : Bytes}
    (hmem : (offset, variableName) ∈ unit.placedVariables strings place) (name : Bytes) :
    (sections.indexStep name ⟨place.info, offset, variableName⟩).answer = .ok none := by
  rw [Sections.indexStep]
  by_cases hname : variableName = name
  · rw [if_neg (not_not_intro hname), Lookup.answer_bind_of_ok
      (Lookup.answer_decode_ok (hwritten.unitAt hnamed hbounded)), Lookup.answer_bind_of_ok
      (Lookup.answer_decode_ok (hwritten.entryAt_variableDraft hnamed hmem))]
    rfl
  · rw [if_pos hname]
    rfl

/-- Of what the index lists of the unit, the first function of the name decides. -/
theorem firstOf_nameSet (name : Bytes) :
    (Lookup.firstOf (sections.indexStep name) (unit.nameSet strings place).items).answer =
      .ok ((unit.functions.filter (·.indexed)).findSome? (·.addressFor? name)) := by
  have hfunctions : (Lookup.firstOf (sections.indexStep name)
      ((unit.listedFunctions strings place).map fun indexed =>
        ⟨place.info, indexed.2, indexed.1⟩)).answer =
          .ok ((unit.functions.filter (·.indexed)).findSome? (·.addressFor? name)) := by
    rw [listedFunctions, List.map_map, Lookup.firstOf_map, ← map_snd_placedFunctions strings place,
      List.filter_map, List.findSome?_map]
    apply Lookup.answer_firstOf_of_ok
    rintro ⟨offset, f⟩ hmem
    exact hwritten.indexStep_function hnamed hbounded (List.mem_filter.mp hmem).1 name
  -- Variables come behind the functions and answer nothing, whatever their names are.
  have hvariables : (Lookup.firstOf (sections.indexStep name)
      ((unit.listedVariables strings place).map fun indexed =>
        ⟨place.info, indexed.2, indexed.1⟩)).answer = .ok none := by
    rw [listedVariables, List.map_map, Lookup.firstOf_map]
    apply Lookup.answer_firstOf_none
    rintro ⟨offset, variableName⟩ hmem
    exact hwritten.indexStep_variable hnamed hbounded hmem name
  rw [nameSet, NameSetDraft.items, listedNames, List.map_append,
    Lookup.answer_firstOf_append_of_ok hfunctions, hvariables]
  cases (unit.functions.filter (·.indexed)).findSome? (·.addressFor? name) <;> rfl

end WrittenIn

end UnitBlueprint

namespace Blueprint

variable {blueprint : Blueprint}

def danglingSet (entry : DanglingName) : NameSetDraft :=
  ⟨entry.unit.toNat, 0, [(entry.name, unitHeaderSize)]⟩

/-- The sets of all units, and behind them those that lead nowhere. -/
def nameSets (blueprint : Blueprint) : List NameSetDraft :=
  (blueprint.placedUnits.map fun p => p.2.nameSet blueprint.strings p.1) ++
    blueprint.danglingNames.map danglingSet

theorem publicNames_eq : blueprint.sections.publicNames =
    blueprint.nameSets.flatMap NameSetDraft.encode := by
  rw [nameSets, List.flatMap_append, List.flatMap_map, List.flatMap_map]
  simp only [sections, UnitBlueprint.nameIndex_assemble]
  rfl

/-- No name of an entry that leads nowhere holds a zero, and its unit is not in the image. -/
def Dangling (blueprint : Blueprint) : Prop :=
  ∀ entry ∈ blueprint.danglingNames,
    0 ∉ entry.name ∧ blueprint.sections.info.length ≤ entry.unit.toNat

theorem Short.indexedNames (hshort : blueprint.Short) (hnames : blueprint.NamesFit)
    (hnamed : ∀ unit ∈ blueprint.units, unit.Named)
    (hdangling : ∀ entry ∈ blueprint.danglingNames, 0 ∉ entry.name) :
    blueprint.sections.indexedNames = ⟨blueprint.nameSets.flatMap NameSetDraft.items, none⟩ := by
  have hlegible : ∀ draft ∈ blueprint.nameSets, draft.Legible := by
    intro draft hmem
    rcases List.mem_append.mp hmem with hmem | hmem
    · obtain ⟨p, hp, rfl⟩ := List.mem_map.mp hmem
      exact (hshort.liesIn hp).legible_nameSet (hnamed p.2 (mem_of_mem_layOut hp))
        (hnames.units p hp)
    · obtain ⟨entry, hentry, rfl⟩ := List.mem_map.mp hmem
      refine ⟨hnames.danglingNames entry hentry, entry.unit.toNat_lt, ?_, ?_⟩
      · intro indexed hindexed
        rw [List.mem_singleton.mp hindexed]
        exact hdangling entry hentry
      · intro indexed hindexed
        rw [List.mem_singleton.mp hindexed]
        exact (by decide : 0 < unitHeaderSize ∧ unitHeaderSize < 2 ^ 32)
  have hall : Decoded.Unfolds (fun _ => some <$> NameIndex.Set.read) 0
      (blueprint.nameSets.flatMap NameSetDraft.encode)
      (blueprint.nameSets.map NameSetDraft.toSet) :=
    Decoded.Unfolds.flatMap (fun draft hmem => (hlegible draft hmem).reads.map some)
      fun _ _ => Bytes.sized_ne_nil _
  rw [Sections.indexedNames, publicNames_eq, hall.eq, Decoded.flatMap]
  exact Decoded.flatMapItems_map_eq fun draft hmem => (hlegible draft hmem).indexedNames_eq

/-- Behind the end of the section there is no unit. -/
theorem unitAt_of_length_le {sections : Sections} {offset : Nat}
    (h : sections.info.length ≤ offset) : sections.unitAt offset = .error .endOfInput := by
  rw [Sections.unitAt, UnitHeader.readAt, List.drop_eq_nil_of_le h]
  split <;> rfl

/-- The first entry of the name that leads nowhere is an error. -/
theorem firstOf_danglingNames {sections : Sections} {entries : List DanglingName}
    (h : ∀ entry ∈ entries, sections.info.length ≤ entry.unit.toNat) (name : Bytes) :
    (Lookup.firstOf (sections.indexStep name)
      (entries.flatMap fun entry => (danglingSet entry).items)).answer =
        if entries.any (·.name = name) then .error (.format .endOfInput) else .ok none := by
  induction entries with
  | nil => rfl
  | cons entry entries ih =>
      have hrest := ih fun other hother => h other (List.mem_cons_of_mem _ hother)
      rw [List.flatMap_cons, danglingSet, NameSetDraft.items, List.map_singleton,
        List.singleton_append, List.any_cons]
      by_cases hname : entry.name = name
      · have hstep : (sections.indexStep name
            ⟨entry.unit.toNat, unitHeaderSize, entry.name⟩).answer =
              .error (.format .endOfInput) := by
          rw [Sections.indexStep, if_neg (not_not_intro hname), unitAt_of_length_le
            (h entry List.mem_cons_self)]
          rfl
        rw [Lookup.firstOf, Lookup.answer_bind_of_error hstep, decide_eq_true hname]
        rfl
      · have hstep : (sections.indexStep name
            ⟨entry.unit.toNat, unitHeaderSize, entry.name⟩).answer = .ok none := by
          rw [Sections.indexStep, if_pos hname]
          rfl
        rw [Lookup.answer_firstOf_cons_none hstep, hrest, decide_eq_false hname, Bool.false_or]

/-- The index gives the address of the first function of the name that it lists; without one, an
entry of the name that leads nowhere is an error. -/
theorem Fits.addressByIndex (hfits : blueprint.Fits) (hnames : blueprint.NamesFit)
    (hnamed : ∀ unit ∈ blueprint.units, unit.Named)
    (hbounded : ∀ unit ∈ blueprint.units, ∀ f ∈ unit.functions, f.Bounded)
    (hdangling : blueprint.Dangling) (name : Bytes) :
    (blueprint.sections.addressByIndex name).answer =
      ((blueprint.functions.filter (·.indexed)).findSome? (·.addressFor? name)).elim
        (if blueprint.danglingNames.any (·.name = name) then .error (.format .endOfInput)
          else .error .notFound) .ok := by
  -- The sets of the units come first and have no errors, so they decide if they have the name.
  have hunits : (Lookup.firstOf (blueprint.sections.indexStep name)
      (blueprint.placedUnits.flatMap fun p => (p.2.nameSet blueprint.strings p.1).items)).answer =
        .ok ((blueprint.functions.filter (·.indexed)).findSome? (·.addressFor? name)) := by
    rw [functions, ← map_snd_placedUnits, List.flatMap_map, List.filter_flatMap,
      Lookup.findSome?_flatMap]
    apply Lookup.answer_firstOf_flatMap
    intro p hp
    have hunit := mem_of_mem_layOut hp
    exact (hfits.writtenIn hp).firstOf_nameSet (hnamed p.2 hunit) (hbounded p.2 hunit) name
  have hsearch : (Lookup.search blueprint.sections.indexedNames
      (blueprint.sections.indexStep name)).answer =
        ((blueprint.functions.filter (·.indexed)).findSome? (·.addressFor? name)).elim
          (if blueprint.danglingNames.any (·.name = name) then .error (.format .endOfInput)
            else .ok none) fun address => .ok (some address) := by
    rw [hfits.sections.indexedNames hnames hnamed fun entry hentry => (hdangling entry hentry).1,
      Lookup.answer_search_of_fault_eq_none _ rfl, nameSets, List.flatMap_append,
      List.flatMap_map, List.flatMap_map, Lookup.answer_firstOf_append_of_ok hunits,
      firstOf_danglingNames fun entry hentry => (hdangling entry hentry).2]
  change (Lookup.orNotFound (Lookup.search blueprint.sections.indexedNames
    (blueprint.sections.indexStep name))).answer = _
  cases hfound : (blueprint.functions.filter (·.indexed)).findSome? (·.addressFor? name) with
  | some address =>
      rw [hfound] at hsearch
      exact Lookup.answer_orNotFound_some hsearch
  | none =>
      rw [hfound] at hsearch
      by_cases hany : blueprint.danglingNames.any (·.name = name) = true
      · rw [if_pos hany] at hsearch
        rw [if_pos hany]
        exact Lookup.answer_orNotFound_error hsearch
      · rw [if_neg hany] at hsearch
        rw [if_neg hany]
        exact Lookup.answer_orNotFound_none hsearch

end Blueprint

end Symbolizer
