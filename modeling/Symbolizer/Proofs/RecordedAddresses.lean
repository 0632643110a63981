import Symbolizer.Proofs.Absence
import Symbolizer.Proofs.Blueprint.NameIndex
import Symbolizer.Proofs.FunctionEntries
import Symbolizer.Proofs.NameSources

/-! # Addresses that the sources record

The sources of names record addresses in an order of their own, and a name is resolved to
the first address that is recorded for it. Zero answers for a name that no source
records. It is also the address of code that the linker has dropped, so a name whose
first record is such code is answered like an unknown one, however many others there are.
-/

namespace Symbolizer

namespace Dwarf

/-- The address that a subprogram states for its start, where it can be read. -/
def Subprogram.statedAddress? (subprogram : Subprogram) : Option Address :=
  subprogram.start?.toOption.join

theorem Subprogram.statedAddress?_eq_some_iff {subprogram : Subprogram} {address : Address} :
    subprogram.statedAddress? = some address ↔ subprogram.start? = .ok (some address) := by
  rw [statedAddress?]
  cases subprogram.start? <;> simp [Except.toOption]

/-- A subprogram that is asked for its start without an error answers with what it states. -/
theorem Subprogram.statedAddress?_of_startOrFirst? {subprogram : Subprogram}
    (hentry : ofEntry subprogram.entry = .ok (some subprogram)) {own : Option Address}
    (h : subprogram.startOrFirst?.answer = .ok own) : subprogram.statedAddress? = own := by
  rw [answer_startOrFirst? hentry, Except.mapError_eq_ok_iff] at h
  rw [statedAddress?, h]
  rfl

theorem Subprogram.structural_startOrFirst? (subprogram : Subprogram) :
    Structural subprogram.startOrFirst?.answer := by
  apply Lookup.structural_bind (.format _)
  intro start
  cases start with
  | some address => exact .ok _
  | none =>
      apply Lookup.structural_bind
      · rw [answer_range?]
        exact .ok _
      · exact fun range => .ok _

namespace Sections

variable (sections : Sections)

/-- The concrete subprogram that an entry of the index leads to. -/
def indexedSubprogram? (indexed : IndexedName) : Option Subprogram := do
  let unit ← (sections.unitAt indexed.unit).toOption
  let entry ← (unit.entryAt indexed.entry).toOption
  (Subprogram.ofEntry entry).toOption.join

/-- The address of that subprogram, if the entry lists the name. -/
def indexedAddress? (name : Bytes) (indexed : IndexedName) : Option Address :=
  if indexed.name = name then
    (sections.indexedSubprogram? indexed).bind Subprogram.statedAddress?
  else none

/-- The addresses to which the index leads from a name. -/
def indexedAddresses (name : Bytes) : List Address :=
  sections.indexedNames.items.filterMap (sections.indexedAddress? name)

/-- The address of a subprogram, if it has the name. -/
def addressNamed? (name : Bytes) (unit : CompileUnit) (subprogram : Subprogram) : Option Address :=
  if (sections.subprogramName unit subprogram).toOption.join = some name then
    subprogram.statedAddress?
  else none

/-- The addresses of the concrete subprograms of a name, in document order. -/
def entryAddresses (name : Bytes) : List Address :=
  sections.units.items.flatMap fun unit =>
    unit.subprograms.items.filterMap (sections.addressNamed? name unit)

/-- What the scan for a name asks of a subprogram. -/
def entryStep (name : Bytes) (unit : CompileUnit) (subprogram : Subprogram) :
    Lookup (Option Address) := do
  if (← Lookup.ofExcept (sections.subprogramName unit subprogram)) ≠ some name then pure none
  else subprogram.startOrFirst?

theorem addressByScan_eq (name : Bytes) : sections.addressByScan name =
    Lookup.orNotFound (Lookup.search sections.units fun unit =>
      Lookup.search unit.subprograms (sections.entryStep name unit)) := rfl

variable {sections} {name : Bytes}

theorem addressNamed?_eq_some_iff {unit : CompileUnit} {subprogram : Subprogram}
    {address : Address} : sections.addressNamed? name unit subprogram = some address ↔
      sections.subprogramName unit subprogram = .ok (some name) ∧
        subprogram.start? = .ok (some address) := by
  rw [addressNamed?, Option.ite_none_right_eq_some, Subprogram.statedAddress?_eq_some_iff]
  cases sections.subprogramName unit subprogram <;> simp [Except.toOption]

theorem mem_entryAddresses_iff {address : Address} : address ∈ sections.entryAddresses name ↔
    ∃ unit ∈ sections.units.items, ∃ subprogram ∈ unit.subprograms.items,
      sections.subprogramName unit subprogram = .ok (some name) ∧
        subprogram.start? = .ok (some address) := by
  simp only [entryAddresses, List.mem_flatMap, List.mem_filterMap, addressNamed?_eq_some_iff]

theorem structural_entryStep (unit : CompileUnit) (subprogram : Subprogram) :
    Structural (sections.entryStep name unit subprogram).answer := by
  apply Lookup.structural_bind (sections.structural_subprogramName unit subprogram)
  intro name?
  split
  · exact .ok none
  · exact subprogram.structural_startOrFirst?

/-- A subprogram answers the scan for its name with the address that it states, and leaves the scan
for another name to others. -/
theorem answer_entryStep_eq_ok_iff {unit : CompileUnit} {subprogram : Subprogram}
    (hentry : Subprogram.ofEntry subprogram.entry = .ok (some subprogram)) {own : Option Address} :
    (sections.entryStep name unit subprogram).answer = .ok own ↔
      ∃ name?, sections.subprogramName unit subprogram = .ok name? ∧
        if name? = some name then subprogram.start? = .ok own else own = none := by
  rw [entryStep, Lookup.answer_bind_eq_ok_iff]
  refine exists_congr fun name? => and_congr Iff.rfl ?_
  by_cases hnamed : name? = some name
  · rw [if_neg (not_not_intro hnamed), if_pos hnamed, Subprogram.answer_startOrFirst? hentry,
      Except.mapError_eq_ok_iff]
  · rw [if_pos hnamed, if_neg hnamed]
    exact ⟨fun h => (Except.ok.inj h).symm, fun h => congrArg Except.ok h.symm⟩

theorem structural_indexStep (indexed : IndexedName) :
    Structural (sections.indexStep name indexed).answer := by
  rw [indexStep]
  split
  · exact .ok none
  · refine Lookup.structural_bind (.format _) fun unit => Lookup.structural_bind (.format _)
      fun entry => Lookup.structural_bind (.format _) fun subprogram? => ?_
    cases subprogram? with
    | none => exact .ok none
    | some subprogram => exact subprogram.structural_startOrFirst?

/-- A subprogram that is scanned without an error answers with the address that it states. -/
theorem addressNamed?_of_entryStep {unit : CompileUnit} {subprogram : Subprogram}
    (hmem : subprogram ∈ unit.subprograms.items) {own : Option Address}
    (h : (sections.entryStep name unit subprogram).answer = .ok own) :
    sections.addressNamed? name unit subprogram = own := by
  obtain ⟨name?, hname, hown⟩ :=
    (answer_entryStep_eq_ok_iff (Subprogram.ofEntry_of_mem_subprograms hmem)).mp h
  rw [addressNamed?, hname]
  by_cases hnamed : name? = some name
  · rw [if_pos hnamed] at hown
    rw [Subprogram.statedAddress?, hown]
    exact if_pos hnamed
  · rw [if_neg hnamed] at hown
    exact (if_neg hnamed).trans hown.symm

theorem indexedAddress?_of_indexStep {indexed : IndexedName} {own : Option Address}
    (h : (sections.indexStep name indexed).answer = .ok own) :
    sections.indexedAddress? name indexed = own := by
  rw [indexStep] at h
  rw [indexedAddress?]
  by_cases hnamed : indexed.name = name
  · rw [if_neg (not_not_intro hnamed)] at h
    obtain ⟨unit, hunit, h⟩ := Lookup.answer_bind_eq_ok_iff.mp h
    obtain ⟨entry, hentry, h⟩ := Lookup.answer_bind_eq_ok_iff.mp h
    obtain ⟨subprogram?, hsubprogram, h⟩ := Lookup.answer_bind_eq_ok_iff.mp h
    rw [Lookup.answer_decode_eq_ok_iff] at hunit hentry hsubprogram
    have hleads : sections.indexedSubprogram? indexed = subprogram? := by
      rw [indexedSubprogram?, hunit]
      change (unit.entryAt indexed.entry).toOption.bind _ = _
      rw [hentry]
      change (Subprogram.ofEntry entry).toOption.join = _
      rw [hsubprogram]
      rfl
    rw [if_pos hnamed, hleads]
    cases subprogram? with
    | none => exact Except.ok.inj h
    | some subprogram =>
        exact Subprogram.statedAddress?_of_startOrFirst? (Subprogram.ofEntry_entry hsubprogram) h
  · rw [if_pos hnamed] at h
    exact (if_neg hnamed).trans (Except.ok.inj h)

/-- The index answers with the first address to which it leads. -/
theorem head?_indexedAddresses {found : Option Address}
    (h : (sections.addressByIndex name).answer = found.elim (.error .notFound) .ok) :
    (sections.indexedAddresses name).head? = found := by
  have hsearch : (Lookup.search sections.indexedNames (sections.indexStep name)).answer =
      .ok found :=
    Lookup.answer_of_orNotFound_eq (Lookup.structural_search structural_indexStep _) h
  rw [indexedAddresses, List.head?_filterMap]
  exact Lookup.findSome?_of_answer_search (fun _ _ _ => indexedAddress?_of_indexStep) hsearch

theorem structural_search_entryStep : Structural (Lookup.search sections.units fun unit =>
    Lookup.search unit.subprograms (sections.entryStep name unit)).answer :=
  Lookup.structural_search (fun unit => Lookup.structural_search (structural_entryStep unit) _) _

theorem search_entryStep {found : Option Address}
    (h : (sections.addressByScan name).answer = found.elim (.error .notFound) .ok) :
    (Lookup.search sections.units fun unit =>
      Lookup.search unit.subprograms (sections.entryStep name unit)).answer = .ok found := by
  rw [addressByScan_eq] at h
  exact Lookup.answer_of_orNotFound_eq structural_search_entryStep h

/-- The scan answers with the first address of a subprogram of the name. -/
theorem head?_entryAddresses {found : Option Address}
    (h : (sections.addressByScan name).answer = found.elim (.error .notFound) .ok) :
    (sections.entryAddresses name).head? = found := by
  rw [entryAddresses, List.head?_flatMap]
  simp only [List.head?_filterMap]
  -- The scan nests one search in another, and so does the search for the first address.
  apply Lookup.findSome?_of_answer_search _ (search_entryStep h)
  intro unit _ own hunit
  exact Lookup.findSome?_of_answer_search (fun _ hmem _ => addressNamed?_of_entryStep hmem) hunit

/-- A name that the scan does not find has been looked for in all entries, and no subprogram of
the name states an address. -/
theorem entries_of_notFound (h : (sections.addressByScan name).answer = .error .notFound) :
    sections.units.fault = none ∧ ∀ unit ∈ sections.units.items, unit.subprograms.fault = none ∧
      ∀ subprogram ∈ unit.subprograms.items,
        ∃ own, sections.subprogramName unit subprogram = .ok own ∧
          (own = some name → subprogram.start? = .ok none) := by
  have hsearch := Lookup.answer_search_eq_none_iff.mp
    (search_entryStep (show _ = none.elim _ _ from h))
  refine ⟨hsearch.1, fun unit hunit => ?_⟩
  have hscanned := Lookup.answer_search_eq_none_iff.mp (hsearch.2 unit hunit)
  refine ⟨hscanned.1, fun subprogram hmem => ?_⟩
  obtain ⟨own, hname, hown⟩ :=
    (answer_entryStep_eq_ok_iff (Subprogram.ofEntry_of_mem_subprograms hmem)).mp
      (hscanned.2 subprogram hmem)
  refine ⟨own, hname, fun hnamed => ?_⟩
  rwa [if_pos hnamed] at hown

theorem indexedNames_of_notFound (h : (sections.addressByIndex name).answer = .error .notFound) :
    sections.indexedNames.fault = none := by
  have hsearch := (Lookup.answer_orNotFound_eq_notFound_iff
    (Lookup.structural_search structural_indexStep _)).mp h
  exact (Lookup.answer_search_eq_none_iff.mp hsearch).1

end Sections

end Dwarf

/-- The values of the global functions of a name, in the order of the table. -/
def SymbolTable.addresses (table : SymbolTable) (name : Bytes) : List Address :=
  (table.functions.filter (·.name = name)).map Symbol.value

theorem SymbolTable.head?_addresses (table : SymbolTable) (name : Bytes) :
    (table.addresses name).head? = table.find? name := by
  rw [addresses, List.head?_map, List.head?_filter, find?]

namespace Image

/-- The addresses that are recorded for a name, source by source in the order in which the sources
are asked. -/
def recordedAddresses (image : Image) (name : Bytes) : List Address :=
  image.sections.indexedAddresses name ++
    (image.sections.entryAddresses name ++ image.symbolTable.addresses name)

/-- The sources have been read to their ends, and none records an address for the name. -/
structure Unknown (image : Image) (name : Bytes) : Prop where
  indexRead : image.sections.indexedNames.fault = none
  indexed : image.sections.indexedAddresses name = []
  unitsRead : image.sections.units.fault = none
  entriesRead : ∀ unit ∈ image.sections.units.items, unit.subprograms.fault = none
  entries : ∀ unit ∈ image.sections.units.items, ∀ subprogram ∈ unit.subprograms.items,
    ∃ own, image.sections.subprogramName unit subprogram = .ok own ∧
      (own = some name → subprogram.start? = .ok none)
  symbols : ∀ symbol ∈ image.symbolTable.functions, symbol.name ≠ name

variable {image : Image} {name : Bytes} {address : Address}

theorem Unknown.entryAddresses_eq_nil (h : image.Unknown name) :
    image.sections.entryAddresses name = [] := by
  rw [List.eq_nil_iff_forall_not_mem]
  intro address hmem
  obtain ⟨unit, hunit, subprogram, hsubprogram, hname, hstart⟩ :=
    Dwarf.Sections.mem_entryAddresses_iff.mp hmem
  obtain ⟨own, hown, hnone⟩ := h.entries unit hunit subprogram hsubprogram
  cases (hnone (Except.ok.inj (hown.symm.trans hname))).symm.trans hstart

theorem Unknown.addresses_eq_nil (h : image.Unknown name) :
    image.symbolTable.addresses name = [] := by
  rw [SymbolTable.addresses, List.map_eq_nil_iff, List.filter_eq_nil_iff]
  intro symbol hmem
  rw [decide_eq_true_iff]
  exact h.symbols symbol hmem

theorem Unknown.recordedAddresses_eq_nil (h : image.Unknown name) :
    image.recordedAddresses name = [] := by
  rw [recordedAddresses, h.indexed, h.entryAddresses_eq_nil, h.addresses_eq_nil]
  rfl

/-- A name that no source finds is unknown. -/
theorem unknown_of_notFound
    (hindex : (image.sections.addressByIndex name).answer = .error .notFound)
    (hscan : (image.sections.addressByScan name).answer = .error .notFound)
    (hsymbols : image.symbolTable.find? name = none) : image.Unknown name where
  indexRead := Dwarf.Sections.indexedNames_of_notFound hindex
  indexed := List.head?_eq_none_iff.mp
    (Dwarf.Sections.head?_indexedAddresses (show _ = none.elim _ _ from hindex))
  unitsRead := (Dwarf.Sections.entries_of_notFound hscan).1
  entriesRead unit hunit := ((Dwarf.Sections.entries_of_notFound hscan).2 unit hunit).1
  entries unit hunit := ((Dwarf.Sections.entries_of_notFound hscan).2 unit hunit).2
  symbols symbol hmem hname := by
    rw [SymbolTable.find?, Option.map_eq_none_iff, List.find?_eq_none] at hsymbols
    exact hsymbols symbol hmem (decide_eq_true hname)

/-- A name that is resolved has been resolved to the first address that is recorded for it, or is
unknown and has been resolved to zero. -/
theorem head?_recordedAddresses_of_resolveName
    (h : (image.resolveName name).start.1 = .ok address) :
    (image.recordedAddresses name).head? = some address ∨ address = 0 ∧ image.Unknown name := by
  rw [resolveName, (Engine.resolveName_yields_named _ _ _).start, Engine.named_eq_ok_iff] at h
  rw [recordedAddresses, List.head?_append, List.head?_append, SymbolTable.head?_addresses]
  -- The source that decides has its answer at the head of its addresses, and those before it have
  -- no addresses at all.
  rcases h with hindex | ⟨hindex, hbehind⟩
  · rw [Dwarf.Sections.head?_indexedAddresses (show _ = (some address).elim _ _ from hindex)]
    exact Or.inl rfl
  rw [Dwarf.Sections.head?_indexedAddresses (show _ = none.elim _ _ from hindex)]
  rcases hbehind with hscan | ⟨hscan, haddress⟩
  · rw [Dwarf.Sections.head?_entryAddresses (show _ = (some address).elim _ _ from hscan)]
    exact Or.inl rfl
  rw [Dwarf.Sections.head?_entryAddresses (show _ = none.elim _ _ from hscan)]
  cases hsymbols : image.symbolTable.find? name with
  | some value =>
      rw [hsymbols] at haddress
      exact Or.inl (congrArg some haddress.symm)
  | none =>
      rw [hsymbols] at haddress
      exact Or.inr ⟨haddress, unknown_of_notFound hindex hscan hsymbols⟩

/-- A name that is resolved has been resolved to zero where the first address that is recorded for
it is zero, and where it is unknown, and nowhere else. So other records of a name, live ones among
them, are hidden behind a first one at zero. -/
theorem resolveName_eq_zero_iff (h : (image.resolveName name).start.1 = .ok address) :
    (address = 0 ↔ (image.recordedAddresses name).head? = some 0 ∨ image.Unknown name) ∧
      (address ≠ 0 → (image.recordedAddresses name).head? = some address) := by
  have hfirst := head?_recordedAddresses_of_resolveName h
  refine ⟨⟨?_, ?_⟩, fun hne => hfirst.resolve_right fun hzero => hne hzero.1⟩
  · rintro rfl
    exact hfirst.imp_right And.right
  · rintro (hzero | hunknown)
    · rcases hfirst with hsome | ⟨rfl, -⟩
      · exact Option.some.inj (hsome.symm.trans hzero)
      · rfl
    · rcases hfirst with hsome | ⟨rfl, -⟩
      · rw [hunknown.recordedAddresses_eq_nil] at hsome
        cases hsome
      · rfl

/-- Two units with a function of one name, the first of which the linker has dropped. -/
def droppedCopy : Image :=
  Blueprint.image {
    units := [
      ⟨Bytes.ofText "a", [⟨Bytes.ofText "f", 0, 16, [⟨0, 10⟩], true, .contiguous⟩], []⟩,
      ⟨Bytes.ofText "b", [⟨Bytes.ofText "f", 0x800000001000, 16, [⟨0, 20⟩], true,
        .contiguous⟩], []⟩]
    symbols := []
    addressIndex := true
    danglingNames := [] }

/-- The dropped copy hides the live one. -/
theorem droppedCopy_hides_live :
    (droppedCopy.resolveName (Bytes.ofText "f")).start.1 = .ok 0 ∧
    (droppedCopy.recordedAddresses (Bytes.ofText "f")).head? = some 0 ∧
    ∃ unit ∈ droppedCopy.sections.units.items, ∃ subprogram ∈ unit.subprograms.items,
      droppedCopy.sections.subprogramName unit subprogram = .ok (some (Bytes.ofText "f")) ∧
        subprogram.start? = .ok (some 0x800000001000) := by
  have hindex : (droppedCopy.sections.addressByIndex (Bytes.ofText "f")).answer = .ok 0 := by
    decide +kernel
  have hresult : (droppedCopy.resolveName (Bytes.ofText "f")).start.1 = .ok 0 := by
    rw [resolveName, (Engine.resolveName_yields_named _ _ _).start, Engine.named_eq_ok_iff]
    exact Or.inl hindex
  have hentries : droppedCopy.sections.entryAddresses (Bytes.ofText "f") =
      [0, 0x800000001000] := by decide +kernel
  have hlive : 0x800000001000 ∈ droppedCopy.sections.entryAddresses (Bytes.ofText "f") := by
    rw [hentries]
    exact List.mem_cons_of_mem _ List.mem_cons_self
  obtain ⟨unit, hunit, subprogram, hsubprogram, hlives⟩ :=
    Dwarf.Sections.mem_entryAddresses_iff.mp hlive
  refine ⟨hresult, ?_, unit, hunit, subprogram, hsubprogram, hlives⟩
  refine ((resolveName_eq_zero_iff hresult).1.mp rfl).resolve_right fun hunknown => ?_
  rw [hunknown.entryAddresses_eq_nil] at hlive
  cases hlive

end Image

end Symbolizer
