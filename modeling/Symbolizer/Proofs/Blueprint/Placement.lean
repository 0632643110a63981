import Symbolizer.Blueprint.Assemble
import Symbolizer.Proofs.Outcomes
import Symbolizer.Proofs.Sequences

/-! # Where parts of blueprints come to lie

Each unit lies in every section behind the parts of the units before it, and each
function and variable lies in its unit behind the entries before it.
-/

namespace Symbolizer

open Dwarf

/-- Entries that are told where they start lie one after another. -/
theorem PlacedEntries.placeAll_map_append {β : Type} (place : β → Nat → PlacedEntries)
    (offset : Nat) (items : List β) (more : List (Nat → PlacedEntries)) :
    placeAll offset (items.map place ++ more) =
      ((layOut (fun offset item => offset + (place item offset).code.length) offset items).map
        fun p => place p.2 p.1) ++
      placeAll (items.foldl (fun offset item => offset + (place item offset).code.length) offset)
        more := by
  induction items generalizing offset with
  | nil => rfl
  | cons item items ih =>
      rw [List.map_cons, List.cons_append, placeAll, ih]
      rfl

theorem Bytes.length_terminated (text : Bytes) : (terminated text).length = text.length + 1 := by
  rw [terminated, List.length_append, List.length_singleton]

theorem Bytes.sized_ne_nil (body : Bytes) : sized body ≠ [] := List.cons_ne_nil _ _

/-- A string lies among others at the offset that is computed for it. -/
theorem liesAt_stringOffset {name : Bytes} {strings : List Bytes} (h : name ∈ strings) :
    LiesAt (stringOffset name strings) (Bytes.terminated name)
      (strings.flatMap Bytes.terminated) := by
  induction strings with
  | nil => cases h
  | cons first rest ih =>
      rw [List.flatMap_cons, stringOffset]
      by_cases heq : first = name
      · rw [if_pos heq, heq]
        exact (LiesAt.self _).left
      · rw [if_neg heq]
        have hlies := (ih ((List.mem_cons.mp h).resolve_left (Ne.symm heq))).trans
          (LiesAt.behind (Bytes.terminated first) _)
        rwa [Bytes.length_terminated] at hlies

namespace UnitBlueprint

variable (strings : List Bytes) (place : UnitPlace) (unit : UnitBlueprint)

/-- The code of the first entry. -/
def rootCode : Bytes := (unit.rootDraft place.lines).encode unit.layouts

/-- The entries of a function at an offset of the unit. -/
def placeFunction (function : FunctionBlueprint) (offset : Nat) : PlacedEntries :=
  function.place unit.layouts strings (unit.rangeListOffset place function) offset

/-- The functions, each with the offset at which its entries start. -/
def placedFunctions : List (Nat × FunctionBlueprint) :=
  layOut (fun offset function =>
      offset + (unit.placeFunction strings place function offset).code.length)
    (unitHeaderSize + (unit.rootCode place).length) unit.functions

theorem map_snd_placedFunctions :
    (unit.placedFunctions strings place).map Prod.snd = unit.functions :=
  map_snd_layOut _ _ _

/-- Where the entries of the functions end. -/
def functionsEnd : Nat :=
  unit.functions.foldl (fun offset function =>
      offset + (unit.placeFunction strings place function offset).code.length)
    (unitHeaderSize + (unit.rootCode place).length)

/-- The variables, each with the offset of its entry. -/
def placedVariables : List (Nat × Bytes) :=
  layOut (fun offset name => offset + (placeVariable unit.layouts name offset).code.length)
    (unit.functionsEnd strings place) unit.variableNames

/-- The code of the functions, of the variables and of the zero that ends the entries. -/
def functionsCode : Bytes :=
  (unit.placedFunctions strings place).flatMap fun p =>
    (unit.placeFunction strings place p.2 p.1).code

def variablesCode : Bytes :=
  (unit.placedVariables strings place).flatMap fun p => (placeVariable unit.layouts p.2 p.1).code

def entriesCode : Bytes :=
  unit.rootCode place ++ (unit.functionsCode strings place ++
    (unit.variablesCode strings place ++ if unit.hasEntries then [0] else []))

theorem functionsEnd_eq : unit.functionsEnd strings place =
    unitHeaderSize + (unit.rootCode place).length + (unit.functionsCode strings place).length :=
  offset_foldl id (fun offset function => (unit.placeFunction strings place function offset).code)
    (fun _ _ => rfl) _ _

theorem placed_eq :
    unit.placed strings place (unitHeaderSize + (unit.rootCode place).length) =
      ((unit.placedFunctions strings place).map fun p =>
        unit.placeFunction strings place p.2 p.1) ++
      (unit.placedVariables strings place).map fun p => placeVariable unit.layouts p.2 p.1 := by
  have hvariables := PlacedEntries.placeAll_map_append (placeVariable unit.layouts)
    (unit.functionsEnd strings place) unit.variableNames []
  rw [List.append_nil, PlacedEntries.placeAll, List.append_nil] at hvariables
  rw [placed, placedVariables, ← hvariables]
  exact PlacedEntries.placeAll_map_append (unit.placeFunction strings place) _ _ _

/-- What the unit contributes to the section of entries. -/
theorem info_assemble : (unit.assemble strings place).info =
    Bytes.sized (Bytes.ofNat 2 4 ++ (Bytes.ofNat 4 place.abbreviations ++
      ([8] ++ unit.entriesCode strings place))) := by
  have hplaced := unit.placed_eq strings place
  simp only [assemble, entriesCode, functionsCode, variablesCode, rootCode] at hplaced ⊢
  rw [hplaced, List.flatMap_append, List.flatMap_map, List.flatMap_map]
  simp only [List.append_assoc]

variable {strings place unit} {offset : Nat}

theorem liesAt_placeFunction {function : FunctionBlueprint}
    (h : (offset, function) ∈ unit.placedFunctions strings place) :
    ∃ distance, offset = unitHeaderSize + distance ∧
      LiesAt distance (unit.placeFunction strings place function offset).code
        (unit.entriesCode strings place) := by
  obtain ⟨distance, hoffset, hlies⟩ := liesAt_of_mem_layOut id
    (fun offset function => (unit.placeFunction strings place function offset).code)
    (fun _ _ => rfl) h
  refine ⟨(unit.rootCode place).length + distance, by rw [← Nat.add_assoc]; exact hoffset, ?_⟩
  have hroot := LiesAt.behind (unit.rootCode place) (unit.functionsCode strings place ++
    (unit.variablesCode strings place ++ if unit.hasEntries then [0] else []))
  exact hlies.trans hroot.left

/-- The entry that holds the code comes last of those of the function. -/
theorem liesAt_codeDraft {f : FunctionBlueprint}
    (h : (offset, f) ∈ unit.placedFunctions strings place) :
    ∃ distance, f.codeOffset unit.layouts (.stringOffset (stringOffset f.name strings)) offset =
        unitHeaderSize + distance ∧
      LiesAt distance ((f.codeDraft (.stringOffset (stringOffset f.name strings))
        (unit.rangeListOffset place f) offset).encode unit.layouts)
        (unit.entriesCode strings place) := by
  obtain ⟨distance, rfl, hlies⟩ := liesAt_placeFunction h
  rw [placeFunction, FunctionBlueprint.place, FunctionBlueprint.drafts, List.flatMap_append,
    List.flatMap_singleton] at hlies
  exact ⟨_, Nat.add_assoc _ _ _, hlies.right⟩

theorem liesAt_placeVariable {name : Bytes}
    (h : (offset, name) ∈ unit.placedVariables strings place) :
    ∃ distance, offset = unitHeaderSize + distance ∧
      LiesAt distance ((variableDraft name).encode unit.layouts)
        (unit.entriesCode strings place) := by
  obtain ⟨distance, hoffset, hlies⟩ := liesAt_of_mem_layOut id
    (fun offset name => (placeVariable unit.layouts name offset).code) (fun _ _ => rfl) h
  simp only [id, functionsEnd_eq] at hoffset
  refine ⟨(unit.rootCode place).length + ((unit.functionsCode strings place).length + distance),
    by omega, ?_⟩
  have hvariables := LiesAt.behind (unit.functionsCode strings place)
    (unit.variablesCode strings place ++ if unit.hasEntries then [0] else [])
  exact (hlies.trans hvariables.left).trans (LiesAt.behind (unit.rootCode place) _)

end UnitBlueprint

namespace Blueprint

variable (blueprint : Blueprint)

/-- The units, each with the place at which its parts lie. -/
def placedUnits : List (UnitPlace × UnitBlueprint) :=
  layOut (fun place unit => place.after (unit.assemble blueprint.strings place)) ⟨0, 0, 0, 0⟩
    blueprint.units

theorem map_snd_placedUnits : blueprint.placedUnits.map Prod.snd = blueprint.units :=
  map_snd_layOut _ _ _

/-- Units are assembled one behind the other exactly if all of them pass their checks there. -/
theorem assembleUnits_eq_ok_iff {strings : List Bytes} {place : UnitPlace}
    {units : List UnitBlueprint} {assembled : List (UnitPlace × UnitParts)} :
    assembleUnits strings place units = .ok assembled ↔
      (∀ p ∈ layOut (fun place unit => place.after (unit.assemble strings place)) place units,
        p.2.checkParts strings p.1 = .ok ()) ∧
      assembled =
        (layOut (fun place unit => place.after (unit.assemble strings place)) place units).map
          fun p => (p.1, p.2.assemble strings p.1) := by
  induction units generalizing place assembled with
  | nil =>
      rw [assembleUnits, Except.ok.injEq]
      exact ⟨fun h => ⟨List.forall_mem_nil _, h.symm⟩, fun h => h.2.symm⟩
  | cons unit units ih =>
      simp only [assembleUnits, Except.bind_eq_ok_iff, ih, layOut, List.forall_mem_cons,
        List.map_cons]
      constructor
      · rintro ⟨⟨⟩, hunit, rest, ⟨hrest, rfl⟩, ⟨⟩⟩
        exact ⟨⟨hunit, hrest⟩, rfl⟩
      · rintro ⟨⟨hunit, hrest⟩, rfl⟩
        exact ⟨(), hunit, _, ⟨hrest, rfl⟩, rfl⟩

/-- The sections, as the parts of all units one after another. -/
def sections : Sections :=
  let contents (part : UnitParts → Bytes) : Bytes :=
    blueprint.placedUnits.flatMap fun p => part (p.2.assemble blueprint.strings p.1)
  { addressRanges := if blueprint.addressIndex then contents UnitParts.addressIndex else []
    abbreviations := contents UnitParts.abbreviations
    info := contents UnitParts.info
    lines := contents UnitParts.lines
    strings := blueprint.strings.flatMap Bytes.terminated
    publicNames :=
      contents UnitParts.nameIndex ++ blueprint.danglingNames.flatMap danglingNameSet
    publicTypes := [] }

def image : Image where
  sections := blueprint.sections
  symbols := SymbolBlueprint.table blueprint.symbols
  symbolNames := .table (SymbolBlueprint.names blueprint.symbols)

/-- A blueprint is assembled exactly if all of its units pass their checks. What comes out are the
sections, and the offsets of the places of the units in them. -/
theorem assemble_eq_ok_iff {blueprint : Blueprint} {assembled : AssembledImage} :
    blueprint.assemble = .ok assembled ↔
      (∀ unit ∈ blueprint.units, unit.check = .ok ()) ∧
      (∀ p ∈ blueprint.placedUnits, p.2.checkParts blueprint.strings p.1 = .ok ()) ∧
      assembled = ⟨blueprint.image, blueprint.placedUnits.map (·.1.info),
        blueprint.placedUnits.map (·.1.lines)⟩ := by
  simp only [assemble, Except.bind_eq_ok_iff, Except.forM_eq_ok_iff, assembleUnits_eq_ok_iff]
  constructor
  · rintro ⟨_, hcheck, units, ⟨hparts, rfl⟩, ⟨⟩⟩
    refine ⟨hcheck, hparts, ?_⟩
    simp only [image, sections, placedUnits, List.map_map, List.flatMap_map, Function.comp_def]
  · rintro ⟨hcheck, hparts, rfl⟩
    refine ⟨(), hcheck, _, ⟨hparts, rfl⟩, congrArg Except.ok ?_⟩
    simp only [image, sections, placedUnits, List.map_map, List.flatMap_map, Function.comp_def]

theorem image_of_assemble {blueprint : Blueprint} {assembled : AssembledImage}
    (h : blueprint.assemble = .ok assembled) : assembled.image = blueprint.image := by
  rw [(assemble_eq_ok_iff.mp h).2.2]

/-- The offsets that are handed out with an image are those of the places of its units. -/
theorem offsets_of_assemble {blueprint : Blueprint} {assembled : AssembledImage}
    (h : blueprint.assemble = .ok assembled) :
    assembled.unitOffsets = blueprint.placedUnits.map (·.1.info) ∧
      assembled.lineOffsets = blueprint.placedUnits.map (·.1.lines) := by
  rw [(assemble_eq_ok_iff.mp h).2.2]
  exact ⟨rfl, rfl⟩

/-- The unit at a position lies at the place to which the offsets at that position lead. -/
theorem exists_place_of_assemble {blueprint : Blueprint} {assembled : AssembledImage}
    (h : blueprint.assemble = .ok assembled) {i : Nat} {unit : UnitBlueprint}
    (hunit : blueprint.units[i]? = some unit) :
    ∃ place, blueprint.placedUnits[i]? = some (place, unit) ∧
      assembled.unitOffsets[i]? = some place.info ∧
      assembled.lineOffsets[i]? = some place.lines := by
  obtain ⟨hunits, hlines⟩ := offsets_of_assemble h
  rw [← map_snd_placedUnits, List.getElem?_map] at hunit
  obtain ⟨⟨place, _⟩, hplaced, rfl⟩ := Option.map_eq_some_iff.mp hunit
  rw [hunits, hlines, List.getElem?_map, List.getElem?_map, hplaced]
  exact ⟨place, rfl, rfl, rfl⟩

variable {blueprint} {place : UnitPlace} {unit : UnitBlueprint}

theorem liesAt_of_mem_placedUnits (h : (place, unit) ∈ blueprint.placedUnits)
    (offset : UnitPlace → Nat) (part : UnitParts → Bytes)
    (hafter : ∀ place parts, offset (place.after parts) = offset place + (part parts).length)
    (hstart : offset ⟨0, 0, 0, 0⟩ = 0) :
    LiesAt (offset place) (part (unit.assemble blueprint.strings place))
      (blueprint.placedUnits.flatMap fun p => part (p.2.assemble blueprint.strings p.1)) := by
  obtain ⟨distance, hoffset, hlies⟩ := liesAt_of_mem_layOut offset
    (fun place unit => part (unit.assemble blueprint.strings place))
    (fun place unit => hafter place (unit.assemble blueprint.strings place)) h
  rwa [hoffset, hstart, Nat.zero_add]

theorem mem_strings (hunit : unit ∈ blueprint.units) {f : FunctionBlueprint}
    (h : f ∈ unit.functions) : f.name ∈ blueprint.strings := by
  rw [strings, List.mem_eraseDups, List.mem_flatMap]
  exact ⟨unit, hunit, List.mem_map_of_mem h⟩

end Blueprint

end Symbolizer
