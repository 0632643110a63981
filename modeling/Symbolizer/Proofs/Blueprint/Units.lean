import Symbolizer.Proofs.Blueprint.LineRows
import Symbolizer.Proofs.Outcomes

/-! # Units of blueprints

A unit is decoded from where it was written, with all of its entries. The units of an
image are found one after another.
-/

namespace Symbolizer

open Dwarf

open EntryDraft (legible_field)

namespace FunctionBlueprint

variable {f : FunctionBlueprint}

theorem legible_data_one : FieldValue.Legible (.data 1) := show 1 < 2 ^ 64 by decide

theorem legible_codeFields {rangeList : Nat} :
    ∀ field ∈ f.codeFields rangeList, field.1.Canonical ∧ field.2.Legible := by
  intro field hfield
  rcases List.mem_append.mp hfield with hfield | hfield
  · split at hfield
    · rw [List.mem_singleton.mp hfield]
      exact legible_field (by decide) trivial
    · rcases List.mem_cons.mp hfield with rfl | hfield
      · exact legible_field (by decide) trivial
      · rw [List.mem_singleton.mp hfield]
        exact legible_field (by decide) f.length.toNat_lt
  · rw [List.mem_singleton.mp hfield]
    exact legible_field (by decide) legible_data_one

theorem legible_nameField {name : FieldValue} (hname : name.Legible) (offset : Nat) :
    (f.nameField name offset).1.Canonical ∧ (f.nameField name offset).2.Legible := by
  rw [nameField]
  split
  · exact legible_field (by decide) hname
  · exact legible_field (by decide) hname
  · exact legible_field (by decide) trivial
  · exact legible_field (by decide) trivial

theorem legible_nameDraft {name : FieldValue} (hname : name.Legible) {draft : EntryDraft}
    (h : f.nameDraft? name = some draft) : draft.Legible := by
  rw [nameDraft?] at h
  have htag : 0 < subprogramTag ∧ subprogramTag < 2 ^ 16 := by decide
  split at h
  · cases h
  · cases h
  · cases h
    refine ⟨htag, ?_⟩
    intro field hfield
    rcases List.mem_cons.mp hfield with rfl | hfield
    · exact legible_field (by decide) hname
    · rw [List.mem_singleton.mp hfield]
      exact legible_field (by decide) legible_data_one
  · cases h
    refine ⟨htag, ?_⟩
    intro field hfield
    rcases List.mem_cons.mp hfield with rfl | hfield
    · exact legible_field (by decide) hname
    · rw [List.mem_singleton.mp hfield]
      exact legible_field (by decide) trivial

/-- The entries of a function can be written whatever comes to be referred to in them. -/
theorem legible_of_mem_drafts {nameOffset rangeList offset : Nat} {draft : EntryDraft}
    (h : draft ∈ f.drafts (.stringOffset nameOffset) rangeList offset) : draft.Legible := by
  have hname : FieldValue.Legible (.stringOffset nameOffset) := trivial
  rcases List.mem_append.mp h with h | h
  · exact legible_nameDraft hname (Option.mem_toList.mp h)
  · rw [List.mem_singleton.mp h]
    refine ⟨show 0 < subprogramTag ∧ subprogramTag < 2 ^ 16 by decide, ?_⟩
    intro field hfield
    rcases List.mem_cons.mp hfield with rfl | hfield
    · exact legible_nameField hname offset
    · exact legible_codeFields field hfield

/-- Layouts do not depend on what is referred to. -/
theorem map_layout_drafts (f : FunctionBlueprint) (nameOffset rangeList offset : Nat) :
    (f.drafts (.stringOffset nameOffset) rangeList offset).map EntryDraft.layout = f.layouts := by
  rw [layouts, drafts, drafts, codeDraft, codeDraft, codeFields, codeFields, nameField, nameField,
    nameDraft?, nameDraft?]
  cases f.shape <;> rfl

end FunctionBlueprint

namespace UnitBlueprint

variable {sections : Sections} {strings : List Bytes} {place : UnitPlace} {unit : UnitBlueprint}

section Layouts

theorem hull?_lt (hbounded : ∀ f ∈ unit.functions, f.Bounded) {low : Address} {span : Nat}
    (h : unit.hull? = some (low, span)) : span < 2 ^ 64 := by
  simp only [hull?, Option.bind_eq_bind, Option.bind_eq_some_iff, Option.some.injEq,
    Prod.mk.injEq] at h
  obtain ⟨first, _, high, hhigh, _, rfl⟩ := h
  obtain ⟨f, hf, rfl⟩ := List.mem_map.mp (List.max?_mem hhigh)
  exact Nat.lt_of_le_of_lt (Nat.sub_le _ _) (hbounded f hf)

theorem legible_rootDraft (hnamed : unit.Named) (hbounded : ∀ f ∈ unit.functions, f.Bounded)
    (lines : Nat) : (unit.rootDraft lines).Legible where
  tag := show 0 < EntryDraft.unitTag ∧ EntryDraft.unitTag < 2 ^ 16 by decide
  field := by
    intro field hfield
    rcases List.mem_append.mp hfield with hfield | hfield
    · rcases List.mem_append.mp hfield with hfield | hfield
      · rw [List.mem_singleton.mp hfield]
        exact legible_field (by decide) hnamed.file
      · split at hfield
        · rename_i low span hhull
          rcases List.mem_cons.mp hfield with rfl | hfield
          · exact legible_field (by decide) trivial
          · rw [List.mem_singleton.mp hfield]
            exact legible_field (by decide) (hull?_lt hbounded hhull)
        · cases hfield
    · split at hfield
      · rw [List.mem_singleton.mp hfield]
        exact legible_field (by decide) trivial
      · cases hfield

theorem legible_variableDraft {name : Bytes} (h : 0 ∉ name) : (variableDraft name).Legible where
  tag := show 0 < EntryDraft.variableTag ∧ EntryDraft.variableTag < 2 ^ 16 by decide
  field := by
    intro field hfield
    rcases List.mem_cons.mp hfield with rfl | hfield
    · exact legible_field (by decide) h
    · rw [List.mem_singleton.mp hfield]
      exact legible_field (by decide) (show 1 < 2 ^ 64 by decide)

theorem layout_rootDraft_mem (unit : UnitBlueprint) (lines : Nat) :
    (unit.rootDraft lines).layout ∈ unit.layouts := by
  have hlayout : (unit.rootDraft lines).layout = (unit.rootDraft 0).layout := by
    rw [rootDraft, rootDraft, EntryDraft.layout, EntryDraft.layout]
    cases unit.hasEntries with
    | false => rfl
    | true => simp only [List.map_append, if_true]; rfl
  rw [layouts, List.mem_eraseDups, hlayout]
  exact List.mem_append_left _ List.mem_cons_self

theorem layout_mem_of_mem_drafts {f : FunctionBlueprint} (hf : f ∈ unit.functions)
    {nameOffset rangeList offset : Nat} {draft : EntryDraft}
    (h : draft ∈ f.drafts (.stringOffset nameOffset) rangeList offset) :
    draft.layout ∈ unit.layouts := by
  have hlayout : draft.layout ∈ f.layouts := by
    rw [← f.map_layout_drafts nameOffset rangeList offset]
    exact List.mem_map_of_mem h
  rw [layouts, List.mem_eraseDups]
  apply List.mem_append_left
  exact List.mem_cons_of_mem _ (List.mem_flatMap.mpr ⟨f, hf, hlayout⟩)

theorem layout_variableDraft_mem {name : Bytes} (h : name ∈ unit.variableNames) :
    (variableDraft name).layout ∈ unit.layouts := by
  rw [layouts, List.mem_eraseDups]
  apply List.mem_append_right
  exact List.mem_map_of_mem (f := fun name => (variableDraft name).layout) h

theorem legible_of_mem_layouts (hnamed : unit.Named) (hbounded : ∀ f ∈ unit.functions, f.Bounded)
    {layout : EntryLayout} (h : layout ∈ unit.layouts) : layout.Legible := by
  rw [layouts, List.mem_eraseDups] at h
  rcases List.mem_append.mp h with h | h
  · rcases List.mem_cons.mp h with rfl | h
    · exact (legible_rootDraft hnamed hbounded 0).layout
    · obtain ⟨f, _, h⟩ := List.mem_flatMap.mp h
      obtain ⟨draft, hdraft, rfl⟩ := List.mem_map.mp h
      exact (FunctionBlueprint.legible_of_mem_drafts hdraft).layout
  · obtain ⟨name, hname, rfl⟩ := List.mem_map.mp h
    exact (legible_variableDraft (hnamed.variableNames name hname)).layout

end Layouts

/-- The header of the unit. -/
def header (strings : List Bytes) (place : UnitPlace) (unit : UnitBlueprint) : UnitHeader :=
  ⟨place.info, blueprintEncoding, place.abbreviations, unitHeaderSize,
    unit.entriesCode strings place⟩

/-- What is decoded where the unit was written. -/
def compiled (strings : List Bytes) (place : UnitPlace) (unit : UnitBlueprint) : CompileUnit where
  header := unit.header strings place
  table := EntryLayout.abbreviations unit.layouts
  root := (unit.rootDraft place.lines).entry unitHeaderSize
  name := some unit.file
  lineProgram := if unit.hasEntries then some place.lines else none

namespace WrittenIn

variable (hwritten : unit.WrittenIn sections strings place)
include hwritten

theorem length_layouts_lt : unit.layouts.length < 2 ^ 32 := by
  have hlength := EntryLayout.length_le_length_encodeFrom unit.layouts 1
  have hle := hwritten.abbreviations.le
  have hlt := hwritten.abbreviations_lt
  rw [EntryLayout.encodeTable] at hle
  omega

theorem table (hnamed : unit.Named) (hbounded : ∀ f ∈ unit.functions, f.Bounded) :
    Abbreviation.table sections.abbreviations place.abbreviations =
      .ok (EntryLayout.abbreviations unit.layouts) :=
  EntryLayout.table_encodeTable (fun _ h => legible_of_mem_layouts hnamed hbounded h)
    hwritten.abbreviations hwritten.abbreviations_lt

theorem reads_header :
    (UnitHeader.read place.info).Reads (unit.assemble strings place).info
      (unit.header strings place) := by
  have hplain := hwritten.plain.info
  have hle := hwritten.abbreviations.le
  have hlt := hwritten.abbreviations_lt
  rw [info_assemble] at hplain ⊢
  rw [Bytes.sized, List.length_append, Bytes.ofNat_length] at hplain
  have hversion : Reader.Reads (Reader.word 2) (Bytes.ofNat 2 4) 4 := Reader.Reads.word (by decide)
  have habbreviations : Format.dwarf32.offset.Reads (Bytes.ofNat 4 place.abbreviations)
      place.abbreviations := Reader.Reads.offset (by omega)
  refine Reader.Reads.sized (by omega) (?_ : _ = Except.ok (_, []))
  rw [Reader.get_bind, hversion.bind_append, if_neg (by decide)]
  simp only [Nat.reduceEqDiff, if_false, pure_bind]
  rw [habbreviations.bind_append, Reader.Reads.addressSize.bind_append]
  have hsize : Format.dwarf32.lengthSize + ((Bytes.ofNat 2 4 ++
      (Bytes.ofNat 4 place.abbreviations ++ ([8] ++ unit.entriesCode strings place))).length -
        (unit.entriesCode strings place).length) = unitHeaderSize := by
    simp only [List.length_append, Bytes.ofNat_length, List.length_singleton, Format.lengthSize,
      unitHeaderSize]
    omega
  rw [header, ← hsize]
  rfl

theorem readAt_info :
    UnitHeader.readAt sections.info place.info = .ok (unit.header strings place) := by
  have hle := hwritten.info.le
  obtain ⟨rest, hdrop⟩ := hwritten.info.drop
  rw [UnitHeader.readAt, if_neg (by omega), hdrop]
  change Prod.fst <$> UnitHeader.read place.info _ = _
  rw [hwritten.reads_header]
  rfl

/-- An entry is read where it lies among those of the unit. -/
theorem entryAt {draft : EntryDraft} (hlegible : draft.Legible)
    (hlayout : draft.layout ∈ unit.layouts) {distance : Nat}
    (hlies : LiesAt distance (draft.encode unit.layouts) (unit.entriesCode strings place)) :
    (unit.compiled strings place).entryAt (unitHeaderSize + distance) =
      .ok (draft.entry (unitHeaderSize + distance)) := by
  have hle := hlies.le
  have hpos := List.length_pos_iff.mpr (draft.encode_ne_nil unit.layouts)
  obtain ⟨rest, hdrop⟩ := hlies.drop
  have hread := hlegible.read hlayout hwritten.length_layouts_lt (unitHeaderSize + distance) rest
  have hinside : ¬(unitHeaderSize + distance < (unit.compiled strings place).header.size ∨
      (unit.compiled strings place).header.unitSize ≤ unitHeaderSize + distance) := by
    change ¬(unitHeaderSize + distance < unitHeaderSize ∨
      unitHeaderSize + (unit.entriesCode strings place).length ≤ unitHeaderSize + distance)
    omega
  rw [CompileUnit.entryAt, if_neg hinside]
  change ((Entry.read blueprintEncoding (EntryLayout.abbreviations unit.layouts)
    (unitHeaderSize + distance)) ((unit.entriesCode strings place).drop
      (unitHeaderSize + distance - unitHeaderSize)) >>= _) = _
  rw [Nat.add_sub_cancel_left, hdrop, hread]
  rfl

end WrittenIn

/-- The entries of a function, as they are read. -/
def functionEntries (strings : List Bytes) (place : UnitPlace) (unit : UnitBlueprint)
    (placed : Nat × FunctionBlueprint) : List Entry :=
  (EntryDraft.laidOut unit.layouts placed.1 (placed.2.drafts
    (.stringOffset (stringOffset placed.2.name strings)) (unit.rangeListOffset place placed.2)
    placed.1)).map fun p => p.2.entry p.1

/-- All entries in the order in which they are read. -/
def allEntries (strings : List Bytes) (place : UnitPlace) (unit : UnitBlueprint) : List Entry :=
  (unit.rootDraft place.lines).entry unitHeaderSize ::
    ((unit.placedFunctions strings place).flatMap (unit.functionEntries strings place) ++
      (unit.placedVariables strings place).map fun p => (variableDraft p.2).entry p.1)

theorem fault_of_mem_allEntries {entry : Entry} (h : entry ∈ unit.allEntries strings place) :
    entry.attributes.fault = none := by
  rcases List.mem_cons.mp h with rfl | h
  · rfl
  rcases List.mem_append.mp h with h | h
  · obtain ⟨_, _, h⟩ := List.mem_flatMap.mp h
    obtain ⟨_, _, rfl⟩ := List.mem_map.mp h
    rfl
  · obtain ⟨_, _, rfl⟩ := List.mem_map.mp h
    rfl

/-- The reader of the entries of the unit; a zero byte reads as no entry. -/
def entryStep (unit : UnitBlueprint) (offset : Nat) : Reader (Option (Option Entry)) :=
  some <$> Entry.read blueprintEncoding (EntryLayout.abbreviations unit.layouts) offset

namespace WrittenIn

variable (hwritten : unit.WrittenIn sections strings place)
include hwritten

theorem unfolds_root (hnamed : unit.Named) (hbounded : ∀ f ∈ unit.functions, f.Bounded) :
    Decoded.Unfolds unit.entryStep unitHeaderSize (unit.rootCode place)
      [some ((unit.rootDraft place.lines).entry unitHeaderSize)] :=
  .one (((legible_rootDraft hnamed hbounded place.lines).read
    (unit.layout_rootDraft_mem place.lines) hwritten.length_layouts_lt _).map some)
    (EntryDraft.encode_ne_nil _ _)

theorem unfolds_functions :
    Decoded.Unfolds unit.entryStep (unitHeaderSize + (unit.rootCode place).length)
      (unit.functionsCode strings place)
      ((unit.placedFunctions strings place).flatMap fun p =>
        (unit.functionEntries strings place p).map some) := by
  refine Decoded.Unfolds.layOut id
    (fun offset f => (unit.placeFunction strings place f offset).code)
    (fun offset f => (unit.functionEntries strings place (offset, f)).map some)
    (fun _ _ => rfl) _ fun offset f hf => ?_
  have hmem := mem_of_mem_layOut hf
  rw [functionEntries, List.map_map]
  exact EntryDraft.unfolds_laidOut (fun _ => FunctionBlueprint.legible_of_mem_drafts)
    (fun _ => layout_mem_of_mem_drafts hmem) hwritten.length_layouts_lt offset

theorem unfolds_variables (hnamed : unit.Named) :
    Decoded.Unfolds unit.entryStep
      (unitHeaderSize + (unit.rootCode place).length + (unit.functionsCode strings place).length)
      (unit.variablesCode strings place)
      ((unit.placedVariables strings place).flatMap fun p =>
        [some ((variableDraft p.2).entry p.1)]) := by
  rw [← functionsEnd_eq]
  refine Decoded.Unfolds.layOut id
    (fun offset name => (placeVariable unit.layouts name offset).code)
    (fun offset name => [some ((variableDraft name).entry offset)])
    (fun _ _ => rfl) _ fun offset name hname => ?_
  have hmem := mem_of_mem_layOut hname
  exact .one (((legible_variableDraft (hnamed.variableNames name hmem)).read
    (layout_variableDraft_mem hmem) hwritten.length_layouts_lt offset).map some)
    (EntryDraft.encode_ne_nil _ _)

/-- The entries are read one after another, up to the zero that ends them. -/
theorem entries (hnamed : unit.Named) (hbounded : ∀ f ∈ unit.functions, f.Bounded) :
    (unit.compiled strings place).entries = ⟨unit.allEntries strings place, none⟩ := by
  -- A root with entries below it is closed by a zero, one without ends the unit.
  have hend (position : Nat) : Decoded.Unfolds unit.entryStep position
      (if unit.hasEntries then [0] else []) (if unit.hasEntries then [none] else []) := by
    split
    · exact .one ((Entry.reads_zero _ _ position).map some) (List.cons_ne_nil _ _)
    · exact .nil
  have hall := (hwritten.unfolds_root hnamed hbounded).append
    (hwritten.unfolds_functions.append ((hwritten.unfolds_variables hnamed).append (hend _)))
  have hnone : (if unit.hasEntries then [none] else []).filterMap (id : Option Entry → _) =
      [] := by
    split <;> rfl
  have hitems : (([some ((unit.rootDraft place.lines).entry unitHeaderSize)] ++
      ((unit.placedFunctions strings place).flatMap (fun p =>
        (unit.functionEntries strings place p).map some) ++
      ((unit.placedVariables strings place).flatMap (fun p : Nat × Bytes =>
        [some ((variableDraft p.2).entry p.1)]) ++
      if unit.hasEntries then [none] else []))).filterMap id) =
        unit.allEntries strings place := by
    rw [List.filterMap_append, List.filterMap_append, List.filterMap_append, hnone,
      List.filterMap_flatMap, List.filterMap_flatMap, List.append_nil, allEntries,
      List.map_eq_flatMap]
    simp only [List.filterMap_map, Function.id_comp, List.filterMap_some]
    rfl
  have hread := Entry.readAll_of_unfolds hall
  rw [hitems] at hread
  exact hread fun _ => fault_of_mem_allEntries

end WrittenIn

section Root

variable (unit : UnitBlueprint) (lines : Nat)

theorem attributes_rootDraft : (unit.rootDraft lines).attributes =
    [⟨.name, .string unit.file⟩] ++
      ((match unit.hull? with
        | some (low, span) => [⟨.lowPc, .address low⟩, ⟨.highPc, .constant span⟩]
        | none => []) ++
      if unit.hasEntries then [⟨.lineProgram, .sectionOffset (lines % 2 ^ 32)⟩] else []) := by
  rw [EntryDraft.attributes, rootDraft]
  cases unit.hull? with
  | none => cases unit.hasEntries <;> rfl
  | some hull => cases unit.hasEntries <;> rfl

theorem last_name_rootDraft :
    Attribute.last .name (unit.rootDraft lines).attributes = some (.string unit.file) := by
  rw [attributes_rootDraft]
  cases unit.hull? with
  | none => cases unit.hasEntries <;> rfl
  | some hull => cases unit.hasEntries <;> rfl

theorem last_lowPc_rootDraft : Attribute.last .lowPc (unit.rootDraft lines).attributes =
    unit.hull?.map fun hull => .address hull.1 := by
  rw [attributes_rootDraft]
  cases unit.hull? with
  | none => cases unit.hasEntries <;> rfl
  | some hull => cases unit.hasEntries <;> rfl

theorem lastSectionOffset_rootDraft :
    Attribute.lastSectionOffset .lineProgram (unit.rootDraft lines).attributes =
      if unit.hasEntries then some (lines % 2 ^ 32) else none := by
  rw [attributes_rootDraft]
  cases unit.hull? with
  | none => cases unit.hasEntries <;> rfl
  | some hull => cases unit.hasEntries <;> rfl

/-- The first entry states the hull of the functions. -/
theorem range?_rootDraft (offset : Nat) : ((unit.rootDraft lines).entry offset).range? =
    .ok (unit.hull?.map fun hull => ⟨hull.1, hull.1 + UInt64.ofNat hull.2⟩) := by
  rw [Entry.range?, EntryDraft.entry, attributes_rootDraft]
  cases unit.hull? with
  | none => cases unit.hasEntries <;> rfl
  | some hull => cases unit.hasEntries <;> rfl

end Root

/-- The unit is decoded whole. -/
theorem WrittenIn.decodeUnit (hwritten : unit.WrittenIn sections strings place)
    (hnamed : unit.Named) (hbounded : ∀ f ∈ unit.functions, f.Bounded) :
    sections.decodeUnit (unit.header strings place) = .ok (unit.compiled strings place) := by
  have hread : (unit.header strings place).readEntries (EntryLayout.abbreviations unit.layouts) =
      _ := hwritten.entries hnamed hbounded
  have hroot : (unit.header strings place).root (EntryLayout.abbreviations unit.layouts) =
      .ok ((unit.rootDraft place.lines).entry unitHeaderSize) := by
    rw [UnitHeader.root, hread]
    rfl
  -- The program lies in a section whose length fits the field, so its offset is not cut.
  have hmod : place.lines % 2 ^ 32 = place.lines := by
    have hle := hwritten.lines.le
    have hlt := hwritten.lines_lt
    rw [Nat.mod_eq_of_lt (by omega)]
  have hlines : sections.checkLineProgram (unit.header strings place).encoding.addressSize
      (if unit.hasEntries then some place.lines else none) = .ok () := by
    split
    · rename_i hhas
      rw [Sections.checkLineProgram]
      change discard (LineProgram.decodeAt sections.lines .eight place.lines) = _
      rw [hwritten.decodeAt_lines hnamed hhas]
      rfl
    · rfl
  have hattributes : ((unit.rootDraft place.lines).entry unitHeaderSize).attributes.toExcept =
      .ok (unit.rootDraft place.lines).attributes := rfl
  have htable : Abbreviation.table sections.abbreviations
      (unit.header strings place).abbreviations = _ := hwritten.table hnamed hbounded
  simp only [Sections.decodeUnit, htable, hroot, hattributes, Except.ok_bind,
    lastSectionOffset_rootDraft, last_name_rootDraft, last_lowPc_rootDraft, hmod, hlines]
  cases unit.hull? with
  | none => rfl
  | some hull => rfl

theorem WrittenIn.unitAt (hwritten : unit.WrittenIn sections strings place)
    (hnamed : unit.Named) (hbounded : ∀ f ∈ unit.functions, f.Bounded) :
    sections.unitAt place.info = .ok (unit.compiled strings place) := by
  rw [Sections.unitAt, hwritten.readAt_info, Except.ok_bind, hwritten.decodeUnit hnamed hbounded]

/-- The file of a unit is known by its name; what it lacks without entries is a line program. -/
theorem WrittenIn.fileForUnit (hwritten : unit.WrittenIn sections strings place)
    (hnamed : unit.Named) (hbounded : ∀ f ∈ unit.functions, f.Bounded) :
    (sections.fileForUnit place.info).answer =
      if unit.hasEntries then .ok ⟨unit.file, place.lines⟩ else .error .missingLineProgram := by
  rw [Sections.fileForUnit, Lookup.answer_bind_of_ok (Lookup.answer_decode_ok
    (hwritten.unitAt hnamed hbounded)), compiled]
  cases unit.hasEntries with
  | false => rfl
  | true => rfl

end UnitBlueprint

namespace Blueprint

variable {blueprint : Blueprint}

/-- All headers are met in order, each at the place of its unit, and nothing is left behind them. -/
theorem Fits.readAll_info (hfits : blueprint.Fits) :
    UnitHeader.readAll blueprint.sections.info =
      ⟨blueprint.placedUnits.map fun p => p.2.header blueprint.strings p.1, none⟩ := by
  have hheaders : Decoded.Unfolds (fun offset => some <$> UnitHeader.read offset) 0
      blueprint.sections.info
      (blueprint.placedUnits.flatMap fun p => [p.2.header blueprint.strings p.1]) := by
    have hafter (place : UnitPlace) (unit : UnitBlueprint) :
        (place.after (unit.assemble blueprint.strings place)).info =
          place.info + (unit.assemble blueprint.strings place).info.length := rfl
    refine Decoded.Unfolds.layOut UnitPlace.info
      (fun place (unit : UnitBlueprint) => (unit.assemble blueprint.strings place).info)
      (fun place (unit : UnitBlueprint) => [unit.header blueprint.strings place])
      hafter ⟨0, 0, 0, 0⟩ fun place unit hmem => .one ?_ ?_
    · exact (hfits.writtenIn hmem).reads_header.map some
    · exact Bytes.sized_ne_nil _
  rw [UnitHeader.readAll, hheaders.eq, ← List.map_eq_flatMap]

/-- All units are met in order, each decoded whole, and nothing else is. -/
theorem Fits.units_sections (hfits : blueprint.Fits) (hnamed : ∀ unit ∈ blueprint.units, unit.Named)
    (hbounded : ∀ unit ∈ blueprint.units, ∀ f ∈ unit.functions, f.Bounded) :
    blueprint.sections.units =
      ⟨blueprint.placedUnits.map fun p => p.2.compiled blueprint.strings p.1, none⟩ := by
  rw [Sections.units, hfits.readAll_info, Decoded.flatMap]
  let decode (header : UnitHeader) : Decoded CompileUnit :=
    .ofExcept (blueprint.sections.decodeUnit header)
  have hdecode : ∀ p ∈ blueprint.placedUnits, decode (p.2.header blueprint.strings p.1) =
      ⟨[p.2.compiled blueprint.strings p.1], none⟩ := by
    rintro ⟨place, unit⟩ hmem
    have hunit := mem_of_mem_layOut hmem
    simp only [decode, (hfits.writtenIn hmem).decodeUnit (hnamed unit hunit) (hbounded unit hunit)]
    rfl
  have hall := Decoded.flatMapItems_map_eq hdecode
  rw [← List.map_eq_flatMap] at hall
  exact hall

end Blueprint

end Symbolizer
