import Mathlib.Data.List.Basic
import Symbolizer.Proofs.Blueprint.Units

/-! # Functions of blueprints

Of the entries of a unit, those that hold the code of its functions are its
subprograms, in order. Each has the name of its function, be it through a reference,
and its code, unless that is a list of ranges.
-/

namespace Symbolizer

open Dwarf

namespace Dwarf

/-- What an entry is as a subprogram. -/
def Entry.subprogram? (entry : Entry) : Option Subprogram :=
  (Subprogram.ofEntry entry).toOption.join

theorem Subprogram.exists_ofEntry {entry : Entry} (h : entry.attributes.fault = none) :
    ∃ subprogram, ofEntry entry = .ok subprogram := by
  rw [ofEntry]
  split
  · exact ⟨none, rfl⟩
  · rw [Decoded.toExcept_eq_ok_iff.mpr ⟨h, rfl⟩]
    exact ⟨_, rfl⟩

/-- Where no entry has a fault, the subprograms are those among them. -/
theorem Subprogram.ofEntries_eq {entries : List Entry}
    (h : ∀ entry ∈ entries, entry.attributes.fault = none) :
    ofEntries ⟨entries, none⟩ = ⟨entries.filterMap Entry.subprogram?, none⟩ := by
  rw [List.filterMap_eq_flatMap_toList]
  apply Decoded.flatMapItems_eq_of_forall
  intro entry hentry
  obtain ⟨subprogram, hsubprogram⟩ := exists_ofEntry (h entry hentry)
  rw [Entry.subprogram?, hsubprogram]
  cases subprogram with
  | none => rfl
  | some subprogram => rfl

end Dwarf

/-- The subprogram that a drafted entry is, where nothing in it denies code. -/
def EntryDraft.subprogram (draft : EntryDraft) (offset : Nat) : Subprogram where
  entry := draft.entry offset
  name := Attribute.last .name draft.attributes
  lowPc := Attribute.last .lowPc draft.attributes
  origins := Sections.inheritance draft.attributes

namespace FunctionBlueprint

variable {f : FunctionBlueprint}

theorem ofEntry_codeDraft (f : FunctionBlueprint) (nameOffset rangeList first offset : Nat) :
    Subprogram.ofEntry ((f.codeDraft (.stringOffset nameOffset) rangeList first).entry offset) =
      .ok (some ((f.codeDraft (.stringOffset nameOffset) rangeList first).subprogram offset)) := by
  rw [codeDraft, nameField, codeFields]
  cases f.shape <;> rfl

theorem subprogram?_codeDraft (f : FunctionBlueprint) (nameOffset rangeList first offset : Nat) :
    ((f.codeDraft (.stringOffset nameOffset) rangeList first).entry offset).subprogram? =
      some ((f.codeDraft (.stringOffset nameOffset) rangeList first).subprogram offset) := by
  rw [Entry.subprogram?, ofEntry_codeDraft]
  rfl

/-- The entry that only holds the name denies that it has code. -/
theorem subprogram?_nameDraft {name : FieldValue} {draft : EntryDraft}
    (h : f.nameDraft? name = some draft) (offset : Nat) :
    (draft.entry offset).subprogram? = none := by
  rw [nameDraft?] at h
  split at h
  · cases h
  · cases h
  · cases h
    rfl
  · cases h
    rfl

/-- The code of the function, unless it is said by a list of ranges. -/
def range? (f : FunctionBlueprint) : Option AddressRange :=
  if f.shape = .rangeList then none else some ⟨f.low, f.low + f.length⟩

/-- The range of the function, if it has one that contains the address. -/
theorem range?_filter_contains (f : FunctionBlueprint) (hbounded : f.Bounded) (address : Address) :
    f.range?.filter (·.contains address) =
      if f.shape ≠ .rangeList ∧ f.Covers address.toNat then some ⟨f.low, f.low + f.length⟩
      else none := by
  have hcontains := contains_range_iff f.low f.length address hbounded
  by_cases hshape : f.shape = .rangeList
  · simp [range?, hshape]
  · simp only [range?, hshape, if_false, Option.filter_some, hcontains, ne_eq, not_false_eq_true,
      true_and, Covers]

/-- The address at which the function is said to start. -/
def start? (f : FunctionBlueprint) : Option Address :=
  if f.shape = .rangeList then none else some f.low

/-- That address, where the function is asked for by its name. -/
def addressFor? (name : Bytes) (f : FunctionBlueprint) : Option Address :=
  if f.name = name then f.start? else none

section Subprogram

variable (f : FunctionBlueprint) (nameOffset rangeList first offset : Nat)

theorem start?_codeDraft :
    ((f.codeDraft (.stringOffset nameOffset) rangeList first).subprogram offset).start? =
      .ok f.start? := by
  rw [codeDraft, nameField, codeFields, start?]
  cases f.shape <;> rfl

theorem range?_codeDraft (hshape : f.shape ≠ .rangeList) :
    ((f.codeDraft (.stringOffset nameOffset) rangeList first).entry offset).range? =
      .ok f.range? := by
  rw [codeDraft, nameField, codeFields, range?, if_neg hshape]
  cases hcases : f.shape with
  | rangeList => exact absurd hcases hshape
  | contiguous | outOfLine | separatelyDeclared =>
      change Except.ok (some (AddressRange.mk f.low (f.low + UInt64.ofNat f.length.toNat))) = _
      rw [UInt64.ofNat_toNat]

/-- A list of ranges reads as empty or not at all. -/
theorem range?_codeDraft_of_rangeList (hshape : f.shape = .rangeList) :
    ((f.codeDraft (.stringOffset nameOffset) rangeList first).entry offset).range? = .ok none ∨
      ((f.codeDraft (.stringOffset nameOffset) rangeList first).entry offset).range? =
        .error .endOfInput := by
  rw [codeDraft, nameField, codeFields, hshape]
  change (Value.sectionOffset (rangeList % 2 ^ 32)).emptyRangeList >>= _ = _ ∨
    (Value.sectionOffset (rangeList % 2 ^ 32)).emptyRangeList >>= _ = _
  cases rangeList % 2 ^ 32 with
  | zero => exact Or.inl rfl
  | succ n => exact Or.inr rfl

/-- The code of the subprogram is that of the function, where it is accepted. -/
theorem answer_range?_codeDraft (accepted : AddressRange → Bool) :
    (((f.codeDraft (.stringOffset nameOffset) rangeList first).subprogram offset).range?
      accepted).answer = .ok (f.range?.filter accepted) := by
  by_cases hshape : f.shape = .rangeList
  · rcases range?_codeDraft_of_rangeList f nameOffset rangeList first offset hshape with h | h
    · simp only [Subprogram.range?, EntryDraft.subprogram, h, range?, hshape, if_true]
      rfl
    · simp only [Subprogram.range?, EntryDraft.subprogram, h, range?, hshape, if_true]
      rfl
  · simp only [Subprogram.range?, EntryDraft.subprogram,
      range?_codeDraft f nameOffset rangeList first offset hshape]
    rfl

theorem answer_startOrFirst?_codeDraft :
    ((f.codeDraft (.stringOffset nameOffset) rangeList first).subprogram
      offset).startOrFirst?.answer = .ok f.start? := by
  have hstart := start?_codeDraft f nameOffset rangeList first offset
  have hrange := answer_range?_codeDraft f nameOffset rangeList first offset fun _ => true
  rw [Subprogram.startOrFirst?, Lookup.answer_bind_of_ok (Lookup.answer_decode_ok hstart)]
  by_cases hshape : f.shape = .rangeList
  · simp only [start?, range?, hshape, if_true] at hrange ⊢
    exact Lookup.answer_bind_of_ok hrange _
  · simp only [start?, hshape, if_false]
    rfl

end Subprogram

end FunctionBlueprint

namespace UnitBlueprint

variable {sections : Sections} {strings : List Bytes} {place : UnitPlace} {unit : UnitBlueprint}

/-- The subprogram that a placed function is. -/
def subprogramAt (strings : List Bytes) (place : UnitPlace) (unit : UnitBlueprint)
    (placed : Nat × FunctionBlueprint) : Subprogram :=
  let name := FieldValue.stringOffset (stringOffset placed.2.name strings)
  (placed.2.codeDraft name (unit.rangeListOffset place placed.2) placed.1).subprogram
    (placed.2.codeOffset unit.layouts name placed.1)

/-- Of the entries of a function, only the one that holds its code is a subprogram. -/
theorem filterMap_functionEntries (placed : Nat × FunctionBlueprint) :
    (unit.functionEntries strings place placed).filterMap Entry.subprogram? =
      [unit.subprogramAt strings place placed] := by
  obtain ⟨offset, f⟩ := placed
  have hcode (position : Nat) := f.subprogram?_codeDraft (stringOffset f.name strings)
    (unit.rangeListOffset place f) offset position
  simp only [functionEntries, FunctionBlueprint.drafts, subprogramAt,
    FunctionBlueprint.codeOffset]
  cases hname : f.nameDraft? (.stringOffset (stringOffset f.name strings)) with
  | none => exact List.filterMap_cons_some (hcode offset)
  | some draft =>
      refine (List.filterMap_cons_none (f.subprogram?_nameDraft hname offset)).trans ?_
      rw [Option.toList, List.flatMap_singleton]
      exact List.filterMap_cons_some (hcode _)

/-- The subprograms of the unit are its functions, in order. -/
theorem WrittenIn.subprograms (hwritten : unit.WrittenIn sections strings place)
    (hnamed : unit.Named) (hbounded : ∀ f ∈ unit.functions, f.Bounded) :
    (unit.compiled strings place).subprograms =
      ⟨(unit.placedFunctions strings place).map (unit.subprogramAt strings place), none⟩ := by
  have hroot : ((unit.rootDraft place.lines).entry unitHeaderSize).subprogram? = none := rfl
  have hvariables : ((unit.placedVariables strings place).map fun p =>
      (variableDraft p.2).entry p.1).filterMap Entry.subprogram? = [] := by
    rw [List.filterMap_map]
    exact List.filterMap_eq_nil_iff.mpr fun _ _ => rfl
  rw [CompileUnit.subprograms, hwritten.entries hnamed hbounded,
    Subprogram.ofEntries_eq fun _ => fault_of_mem_allEntries, allEntries,
    List.filterMap_cons_none hroot, List.filterMap_append, hvariables, List.append_nil,
    List.filterMap_flatMap, List.map_eq_flatMap]
  simp only [filterMap_functionEntries]

theorem LiesIn.length_entriesCode_lt (hlies : unit.LiesIn sections strings place) :
    unitHeaderSize + (unit.entriesCode strings place).length < 2 ^ 32 := by
  have hle := hlies.info.le
  have hlt := hlies.info_lt
  simp only [info_assemble, Bytes.sized, List.length_append, Bytes.ofNat_length,
    List.length_singleton] at hle
  rw [unitHeaderSize]
  omega

namespace WrittenIn

variable (hwritten : unit.WrittenIn sections strings place)
include hwritten

/-- The name of a function is read where references to it lead. -/
theorem string_name (hnamed : unit.Named) {f : FunctionBlueprint} (hf : f ∈ unit.functions) :
    sections.string (.stringOffset (stringOffset f.name strings % 2 ^ 32)) = .ok f.name := by
  have hlies := hwritten.functionNames f hf
  have hle := hlies.le
  have hlt := hwritten.strings_lt
  obtain ⟨rest, hdrop⟩ := hlies.drop
  rw [Nat.mod_eq_of_lt (by omega), Sections.string, hdrop,
    Bytes.splitZero_terminated (hnamed.functions f hf)]

/-- The entry that only holds the name lies where the entries of the function start. -/
theorem entryAt_nameDraft {offset : Nat} {f : FunctionBlueprint}
    (hmem : (offset, f) ∈ unit.placedFunctions strings place) {draft : EntryDraft}
    (hdraft : f.nameDraft? (.stringOffset (stringOffset f.name strings)) = some draft) :
    (unit.compiled strings place).entryAt (offset % 2 ^ 32) = .ok (draft.entry offset) := by
  have hlt := hwritten.length_entriesCode_lt
  have hf := mem_of_mem_layOut hmem
  obtain ⟨distance, rfl, hlies⟩ := liesAt_placeFunction hmem
  have hle := hlies.le
  have hfirst : draft ∈ f.drafts (.stringOffset (stringOffset f.name strings))
      (unit.rangeListOffset place f) (unitHeaderSize + distance) := by
    rw [FunctionBlueprint.drafts, hdraft]
    exact List.mem_cons_self
  rw [placeFunction, FunctionBlueprint.place, FunctionBlueprint.drafts, hdraft] at hlies
  rw [Nat.mod_eq_of_lt (by omega)]
  exact hwritten.entryAt (FunctionBlueprint.legible_of_mem_drafts hfirst)
    (layout_mem_of_mem_drafts hf hfirst) hlies.left

/-- A reference to the entry that only holds the name gives the name. -/
theorem referencedName_nameDraft (hnamed : unit.Named) {offset : Nat} {f : FunctionBlueprint}
    (hmem : (offset, f) ∈ unit.placedFunctions strings place) {draft : EntryDraft}
    (hdraft : f.nameDraft? (.stringOffset (stringOffset f.name strings)) = some draft)
    (hops : Nat) :
    sections.referencedName (hops + 1) (unit.compiled strings place)
      (.unitReference (offset % 2 ^ 32)) = .ok (some f.name) := by
  have hown : (draft.entry offset).attributes.items.find? (·.name = .name) =
      some ⟨.name, .stringOffset (stringOffset f.name strings % 2 ^ 32)⟩ := by
    rw [FunctionBlueprint.nameDraft?] at hdraft
    split at hdraft <;> cases hdraft <;> rfl
  rw [Sections.referencedName, Sections.target, hwritten.entryAt_nameDraft hmem hdraft]
  change sections.nameVia _ (draft.entry offset) = _
  simp only [Sections.nameVia, hown, hwritten.string_name hnamed (mem_of_mem_layOut hmem)]
  rfl

/-- Every function has its name, its own or one that it inherits. -/
theorem subprogramName (hnamed : unit.Named) {offset : Nat} {f : FunctionBlueprint}
    (hmem : (offset, f) ∈ unit.placedFunctions strings place) :
    sections.subprogramName (unit.compiled strings place)
      (unit.subprogramAt strings place (offset, f)) = .ok (some f.name) := by
  have hstring := hwritten.string_name hnamed (mem_of_mem_layOut hmem)
  have hreferenced {draft : EntryDraft}
      (hdraft : f.nameDraft? (.stringOffset (stringOffset f.name strings)) = some draft) :
      Sections.firstName (sections.referencedName maxHops (unit.compiled strings place))
        [.unitReference (offset % 2 ^ 32)] = .ok (some f.name) := by
    rw [Sections.firstName, maxHops, hwritten.referencedName_nameDraft hnamed hmem hdraft]
    rfl
  rw [Sections.subprogramName, subprogramAt, FunctionBlueprint.codeDraft,
    FunctionBlueprint.nameField, FunctionBlueprint.codeFields]
  cases hshape : f.shape with
  | contiguous | rangeList =>
      change some <$> (sections.string (.stringOffset _)).mapError _ = _
      rw [hstring]
      rfl
  -- These refer to the entry in front of them, which has the name.
  | outOfLine | separatelyDeclared =>
      apply hreferenced
      rw [FunctionBlueprint.nameDraft?, hshape]

/-- The entry that holds the code is where the index of names says. -/
theorem entryAt_codeDraft {offset : Nat} {f : FunctionBlueprint}
    (hmem : (offset, f) ∈ unit.placedFunctions strings place) :
    (unit.compiled strings place).entryAt (f.codeOffset unit.layouts
        (.stringOffset (stringOffset f.name strings)) offset) =
      .ok (unit.subprogramAt strings place (offset, f)).entry := by
  have hlast : f.codeDraft (.stringOffset (stringOffset f.name strings))
      (unit.rangeListOffset place f) offset ∈
        f.drafts (.stringOffset (stringOffset f.name strings)) (unit.rangeListOffset place f)
          offset :=
    List.mem_append_right _ (List.mem_singleton_self _)
  obtain ⟨distance, hoffset, hlies⟩ := liesAt_codeDraft hmem
  rw [hoffset, hwritten.entryAt (FunctionBlueprint.legible_of_mem_drafts hlast)
    (layout_mem_of_mem_drafts (mem_of_mem_layOut hmem) hlast) hlies, ← hoffset]
  rfl

theorem entryAt_variableDraft (hnamed : unit.Named) {offset : Nat} {name : Bytes}
    (hmem : (offset, name) ∈ unit.placedVariables strings place) :
    (unit.compiled strings place).entryAt offset = .ok ((variableDraft name).entry offset) := by
  have hname := mem_of_mem_layOut hmem
  obtain ⟨distance, rfl, hlies⟩ := liesAt_placeVariable hmem
  exact hwritten.entryAt (legible_variableDraft (hnamed.variableNames name hname))
    (layout_variableDraft_mem hname) hlies

/-- The function at an address is the first whose code is there and not said by a list. -/
theorem functionForAddress (hnamed : unit.Named) (hbounded : ∀ f ∈ unit.functions, f.Bounded)
    (address : Address) :
    (sections.functionForAddress address place.info).answer =
      ((unit.functions.find? fun f => f.shape ≠ .rangeList ∧ f.Covers address.toNat).map
        fun f => Function.mk f.name f.low).elim (.error .notFound) .ok := by
  rw [Sections.functionForAddress, Lookup.answer_bind_of_ok (Lookup.answer_decode_ok
    (hwritten.unitAt hnamed hbounded)), hwritten.subprograms hnamed hbounded]
  apply Lookup.answer_orNotFound_of_ok
  rw [← Lookup.findSome?_eq_map_find? fun _ _ => rfl, ← map_snd_placedFunctions strings place unit,
    List.findSome?_map]
  apply Lookup.answer_search_map
  rintro ⟨offset, f⟩ hmem
  have hrange : ((unit.subprogramAt strings place (offset, f)).range?
      (·.contains address)).answer = .ok (f.range?.filter (·.contains address)) :=
    f.answer_range?_codeDraft _ _ _ _ _
  have hfilter := f.range?_filter_contains (hbounded f (mem_of_mem_layOut hmem)) address
  have hstart : (unit.subprogramAt strings place (offset, f)).start? = .ok f.start? :=
    f.start?_codeDraft _ _ _ _
  rw [Lookup.answer_bind_of_ok hrange, hfilter]
  change _ = Except.ok (if f.shape ≠ .rangeList ∧ f.Covers address.toNat then _ else none)
  by_cases hcode : f.shape ≠ .rangeList ∧ f.Covers address.toNat
  · rw [if_pos hcode, if_pos hcode]
    -- A function that is not said by a list has a start.
    rw [FunctionBlueprint.start?, if_neg hcode.1] at hstart
    have hname : (Lookup.ofExcept (sections.subprogramName (unit.compiled strings place)
        (unit.subprogramAt strings place (offset, f)))).answer = .ok (some f.name) :=
      hwritten.subprogramName hnamed hmem
    refine (Lookup.answer_bind_of_ok hname _).trans ?_
    exact Lookup.answer_bind_of_ok (Lookup.answer_decode_ok hstart) _
  · rw [if_neg hcode, if_neg hcode]
    rfl

end WrittenIn

end UnitBlueprint

namespace Blueprint

variable {blueprint : Blueprint}

/-- The functions of all units. -/
def functions (blueprint : Blueprint) : List FunctionBlueprint :=
  blueprint.units.flatMap UnitBlueprint.functions

/-- The scan gives the address of the first function of the name that has one. -/
theorem Fits.addressByScan (hfits : blueprint.Fits)
    (hnamed : ∀ unit ∈ blueprint.units, unit.Named)
    (hbounded : ∀ unit ∈ blueprint.units, ∀ f ∈ unit.functions, f.Bounded) (name : Bytes) :
    (blueprint.sections.addressByScan name).answer =
      (blueprint.functions.findSome? (·.addressFor? name)).elim (.error .notFound) .ok := by
  rw [Sections.addressByScan, hfits.units_sections hnamed hbounded]
  apply Lookup.answer_orNotFound_of_ok
  rw [functions, ← map_snd_placedUnits, List.flatMap_map, Lookup.findSome?_flatMap]
  apply Lookup.answer_search_map
  intro p hp
  have hunit := mem_of_mem_layOut hp
  have hwritten := hfits.writtenIn hp
  rw [hwritten.subprograms (hnamed p.2 hunit) (hbounded p.2 hunit),
    ← p.2.map_snd_placedFunctions blueprint.strings p.1, List.findSome?_map]
  apply Lookup.answer_search_map
  rintro ⟨offset, f⟩ hmem
  have hname : (Lookup.ofExcept (blueprint.sections.subprogramName
      (p.2.compiled blueprint.strings p.1)
      (p.2.subprogramAt blueprint.strings p.1 (offset, f)))).answer = .ok (some f.name) :=
    hwritten.subprogramName (hnamed p.2 hunit) hmem
  rw [Lookup.answer_bind_of_ok hname]
  change _ = Except.ok (f.addressFor? name)
  rw [FunctionBlueprint.addressFor?]
  by_cases heq : f.name = name
  · rw [if_pos heq, if_neg (not_not_intro (congrArg some heq))]
    exact f.answer_startOrFirst?_codeDraft _ _ _ _
  · rw [if_neg heq, if_pos fun h => heq (Option.some.inj h)]
    rfl

end Blueprint

end Symbolizer
