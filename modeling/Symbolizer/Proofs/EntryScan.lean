import Symbolizer.Proofs.Blueprint.Placement
import Symbolizer.Proofs.RecordedAddresses

/-! # The scan of all entries

A scan for a name goes through the units in section order and through the entries of
each in document order, nested ones included. It ends at the first function of the
name that states its start, or at what cannot be decoded, and finds nothing only if
all entries have been decoded and there is no such function among them.
-/

namespace Symbolizer.Dwarf

theorem Attribute.deniesCode_iff {a : Attribute} : a.deniesCode = true ↔
    a = ⟨.declaration, .flag true⟩ ∨ ∃ n, 0 < n ∧ n < 256 ∧ a = ⟨.inlined, .constant n⟩ := by
  obtain ⟨target, value⟩ := a
  cases target <;> cases value <;> simp [deniesCode]

theorem Value.address?_eq_some_iff {value : Value} {address : Address} :
    value.address? = .ok (some address) ↔ value = .address address := by
  cases value <;> simp [address?]

namespace Entry

variable {entry : Entry}

/-- The entry only declares a function. -/
def IsDeclaration (entry : Entry) : Prop := ⟨.declaration, .flag true⟩ ∈ entry.attributes.items

/-- The entry holds what the inlined instances of a function have in common. -/
def IsAbstractRoot (entry : Entry) : Prop :=
  ∃ n, 0 < n ∧ n < 256 ∧ ⟨.inlined, .constant n⟩ ∈ entry.attributes.items

/-- The entry is one of a function with code of its own. -/
structure Concrete (entry : Entry) : Prop where
  tag : entry.tag = subprogramTag
  not_declaration : ¬entry.IsDeclaration
  not_abstractRoot : ¬entry.IsAbstractRoot

/-- The address that the entry states for the start of its code. -/
def StartsAt (entry : Entry) (address : Address) : Prop :=
  Attribute.last .lowPc entry.attributes.items = some (.address address)

theorem any_deniesCode_iff : entry.attributes.items.any Attribute.deniesCode = true ↔
    entry.IsDeclaration ∨ entry.IsAbstractRoot := by
  simp only [List.any_eq_true, Attribute.deniesCode_iff]
  constructor
  · rintro ⟨a, ha, rfl | ⟨n, hpos, hlt, rfl⟩⟩
    · exact Or.inl ha
    · exact Or.inr ⟨n, hpos, hlt, ha⟩
  · rintro (h | ⟨n, hpos, hlt, h⟩)
    · exact ⟨_, h, Or.inl rfl⟩
    · exact ⟨_, h, Or.inr ⟨n, hpos, hlt, rfl⟩⟩

theorem concrete_iff : entry.Concrete ↔
    ¬(entry.tag ≠ subprogramTag ∨ entry.attributes.items.any Attribute.deniesCode = true) := by
  rw [any_deniesCode_iff, not_or, not_or, not_ne_iff]
  exact ⟨fun h => ⟨h.tag, h.not_declaration, h.not_abstractRoot⟩,
    fun ⟨htag, hdeclaration, habstract⟩ => ⟨htag, hdeclaration, habstract⟩⟩

theorem Concrete.ofEntry (h : entry.Concrete) (hread : entry.attributes.fault = none) :
    Subprogram.ofEntry entry = .ok (some entry.subprogram) := by
  rw [Subprogram.ofEntry, if_neg (concrete_iff.mp h), Decoded.toExcept, hread]
  rfl

theorem Concrete.ofEntry_of_fault (h : entry.Concrete) {e : DecodeError}
    (hfault : entry.attributes.fault = some e) : Subprogram.ofEntry entry = .error e := by
  rw [Subprogram.ofEntry, if_neg (concrete_iff.mp h), Decoded.toExcept, hfault]
  rfl

theorem ofEntry_of_not_concrete (h : ¬entry.Concrete) : Subprogram.ofEntry entry = .ok none :=
  if_pos (not_not.mp (mt concrete_iff.mpr h))

theorem start?_subprogram_eq_some_iff {address : Address} :
    entry.subprogram.start? = .ok (some address) ↔ entry.StartsAt address := by
  rw [Subprogram.start?, subprogram, StartsAt]
  cases Attribute.last .lowPc entry.attributes.items with
  | none => simp
  | some value => simp [Value.address?_eq_some_iff]

end Entry

/-- No entry is got past with an attribute that cannot be read. -/
theorem CompileUnit.fault_attributes {unit : CompileUnit} (h : unit.entries.fault = none)
    {entry : Entry} (hmem : entry ∈ unit.entries.items) : entry.attributes.fault = none := by
  obtain ⟨own, hown, hentry⟩ := Decoded.exists_of_mem_flatMapItems hmem
  rw [List.mem_singleton.mp hentry]
  exact Decoded.fault_of_flatMapItems h own hown

namespace Sections

section Scan

variable (sections : Sections) (name : Bytes) (unit : CompileUnit)

/-- The entry is one of a function of the name with code of its own. -/
structure Describes (entry : Entry) : Prop where
  concrete : entry.Concrete
  named : sections.subprogramName unit entry.subprogram = .ok (some name)

/-- Why the scan for a name goes on behind an entry. -/
inductive Skips (entry : Entry) : Prop
  | otherTag (h : entry.tag ≠ subprogramTag)
  | declaration (h : entry.IsDeclaration)
  | abstractRoot (h : entry.IsAbstractRoot)
  | otherName {name? : Option Bytes} (hread : entry.attributes.fault = none)
      (h : sections.subprogramName unit entry.subprogram = .ok name?) (hne : name? ≠ some name)
  | withoutStart (hread : entry.attributes.fault = none)
      (hnamed : sections.subprogramName unit entry.subprogram = .ok (some name))
      (h : entry.subprogram.start? = .ok none)

/-- All entries of the unit have been decoded and skipped. -/
structure Excludes : Prop where
  entriesRead : unit.entries.fault = none
  attributesRead : ∀ entry ∈ unit.entries.items, entry.attributes.fault = none
  skips : ∀ entry ∈ unit.entries.items, sections.Skips name unit entry

/-- The function of an entry, if it has code of its own. -/
def concreteSubprogram (entry : Entry) : Decoded Subprogram :=
  match Subprogram.ofEntry entry with
  | .ok (some subprogram) => .one subprogram
  | .ok none => .done
  | .error e => .failed e

/-- What a scan asks of an entry. -/
def scanEntry (entry : Entry) : Lookup (Option Address) :=
  Lookup.search (concreteSubprogram entry) (sections.entryStep name unit)

end Scan

variable {sections : Sections} {name : Bytes} {unit : CompileUnit} {entry : Entry}

theorem answer_scanEntry_of_not_concrete (h : ¬entry.Concrete) :
    (sections.scanEntry name unit entry).answer = .ok none := by
  rw [scanEntry, concreteSubprogram, Entry.ofEntry_of_not_concrete h]
  rfl

/-- An entry of a function is asked only if it can be read to its end. -/
theorem answer_scanEntry_eq_ok_iff (h : entry.Concrete) {own : Option Address} :
    (sections.scanEntry name unit entry).answer = .ok own ↔
      entry.attributes.fault = none ∧
        ∃ name?, sections.subprogramName unit entry.subprogram = .ok name? ∧
          if name? = some name then entry.subprogram.start? = .ok own else own = none := by
  cases hfault : entry.attributes.fault with
  | some e =>
      rw [scanEntry, concreteSubprogram, h.ofEntry_of_fault hfault]
      exact iff_of_false nofun fun hread => nomatch hread.1
  | none =>
      rw [scanEntry, concreteSubprogram, h.ofEntry hfault, Lookup.answer_search_one,
        answer_entryStep_eq_ok_iff (h.ofEntry hfault)]
      exact (and_iff_right rfl).symm

theorem skips_of_not_concrete (h : ¬entry.Concrete) : sections.Skips name unit entry := by
  by_cases htag : entry.tag = subprogramTag
  · by_cases hdeclaration : entry.IsDeclaration
    · exact .declaration hdeclaration
    · exact .abstractRoot (not_not.mp fun habstract => h ⟨htag, hdeclaration, habstract⟩)
  · exact .otherTag htag

/-- An entry that is skipped is none of a function of the name that starts anywhere. -/
theorem Skips.not_describes (h : sections.Skips name unit entry) (address : Address) :
    ¬(sections.Describes name unit entry ∧ entry.StartsAt address) := by
  rintro ⟨hdescribes, hstarts⟩
  cases h with
  | otherTag h => exact h hdescribes.concrete.tag
  | declaration h => exact hdescribes.concrete.not_declaration h
  | abstractRoot h => exact hdescribes.concrete.not_abstractRoot h
  | otherName _ h hne => exact hne (Except.ok.inj (h.symm.trans hdescribes.named))
  | withoutStart _ _ h =>
      cases h.symm.trans (Entry.start?_subprogram_eq_some_iff.mpr hstarts)

/-- The scan goes on behind an entry for no other reasons. -/
theorem answer_scanEntry_eq_none_iff :
    (sections.scanEntry name unit entry).answer = .ok none ↔ sections.Skips name unit entry := by
  by_cases hconcrete : entry.Concrete
  · constructor
    · intro h
      obtain ⟨hread, name?, hname, hown⟩ := (answer_scanEntry_eq_ok_iff hconcrete).mp h
      by_cases hnamed : name? = some name
      · rw [if_pos hnamed] at hown
        exact .withoutStart hread (hname.trans (congrArg Except.ok hnamed)) hown
      · exact .otherName hread hname hnamed
    · intro h
      cases h with
      | otherTag h => exact absurd hconcrete.tag h
      | declaration h => exact absurd h hconcrete.not_declaration
      | abstractRoot h => exact absurd h hconcrete.not_abstractRoot
      | otherName hread h hne =>
          exact (answer_scanEntry_eq_ok_iff hconcrete).mpr
            ⟨hread, _, h, (if_neg hne).mpr rfl⟩
      | withoutStart hread hnamed h =>
          exact (answer_scanEntry_eq_ok_iff hconcrete).mpr
            ⟨hread, _, hnamed, (if_pos rfl).mpr h⟩
  · exact ⟨fun _ => skips_of_not_concrete hconcrete, fun _ =>
      answer_scanEntry_of_not_concrete hconcrete⟩

/-- And it ends with an address at no other entries than those of a function of the name. -/
theorem answer_scanEntry_eq_some_iff {address : Address} :
    (sections.scanEntry name unit entry).answer = .ok (some address) ↔
      entry.attributes.fault = none ∧ sections.Describes name unit entry ∧
        entry.StartsAt address := by
  by_cases hconcrete : entry.Concrete
  · rw [answer_scanEntry_eq_ok_iff hconcrete]
    constructor
    · rintro ⟨hread, name?, hname, hown⟩
      by_cases hnamed : name? = some name
      · rw [if_pos hnamed, Entry.start?_subprogram_eq_some_iff] at hown
        exact ⟨hread, ⟨hconcrete, hname.trans (congrArg Except.ok hnamed)⟩, hown⟩
      · rw [if_neg hnamed] at hown
        cases hown
    · rintro ⟨hread, hdescribes, hstarts⟩
      exact ⟨hread, _, hdescribes.named,
        (if_pos rfl).mpr (Entry.start?_subprogram_eq_some_iff.mpr hstarts)⟩
  · rw [answer_scanEntry_of_not_concrete hconcrete]
    exact iff_of_false nofun fun h => hconcrete h.2.1.concrete

theorem answer_search_subprograms :
    (Lookup.search unit.subprograms (sections.entryStep name unit)).answer =
      (Lookup.search unit.entries (sections.scanEntry name unit)).answer :=
  Lookup.answer_search_flatMap _ concreteSubprogram _

/-- Nothing is found in a unit of which all entries are skipped, and in no other. -/
theorem answer_search_subprograms_eq_none_iff :
    (Lookup.search unit.subprograms (sections.entryStep name unit)).answer = .ok none ↔
      sections.Excludes name unit := by
  rw [answer_search_subprograms, Lookup.answer_search_eq_none_iff]
  simp only [answer_scanEntry_eq_none_iff]
  exact ⟨fun ⟨hread, hskips⟩ => ⟨hread, fun _ => unit.fault_attributes hread, hskips⟩,
    fun h => ⟨h.entriesRead, h.skips⟩⟩

/-- What is found in a unit is the start of the first function of the name. -/
theorem answer_search_subprograms_eq_some_iff {address : Address} :
    (Lookup.search unit.subprograms (sections.entryStep name unit)).answer = .ok (some address) ↔
      ∃ before entry behind, unit.entries.items = before ++ entry :: behind ∧
        (∀ other ∈ before, sections.Skips name unit other) ∧
        entry.attributes.fault = none ∧ sections.Describes name unit entry ∧
        entry.StartsAt address := by
  rw [answer_search_subprograms, Lookup.answer_search_eq_some_iff,
    Lookup.answer_firstOf_eq_some_iff]
  simp only [answer_scanEntry_eq_none_iff, answer_scanEntry_eq_some_iff]

/-- The scan for a name finds the start that is stated by the first entry, over all units and in
document order, of a function of the name with code of its own, and it finds nothing only where all
units and entries have been decoded and there is no such entry that states its start. What is
skipped on the way is none, and no start is made up from the ranges of the code. -/
theorem addressByScan_in_document_order (sections : Sections) (name : Bytes) :
    (∀ address, (sections.addressByScan name).answer = .ok address ↔
      ∃ unitsBefore unit unitsBehind,
        sections.units.items = unitsBefore ++ unit :: unitsBehind ∧
        (∀ other ∈ unitsBefore, sections.Excludes name other) ∧
        ∃ before entry behind, unit.entries.items = before ++ entry :: behind ∧
          (∀ other ∈ before, sections.Skips name unit other) ∧
          entry.attributes.fault = none ∧ sections.Describes name unit entry ∧
          entry.StartsAt address) ∧
    ((sections.addressByScan name).answer = .error .notFound ↔
      sections.units.fault = none ∧ ∀ unit ∈ sections.units.items, sections.Excludes name unit) ∧
    (∀ unit entry address, sections.Skips name unit entry →
      ¬(sections.Describes name unit entry ∧ entry.StartsAt address)) ∧
    ∀ unit ∈ sections.units.items, ∀ subprogram ∈ unit.subprograms.items,
      subprogram.start? = .ok none → (subprogram.range? fun _ => true).answer = .ok none := by
  refine ⟨fun address => ?_, ?_, fun unit entry address h => h.not_describes address, ?_⟩
  · rw [addressByScan_eq, Lookup.answer_orNotFound_eq_ok_iff, Lookup.answer_search_eq_some_iff,
      Lookup.answer_firstOf_eq_some_iff]
    simp only [answer_search_subprograms_eq_none_iff, answer_search_subprograms_eq_some_iff]
  · rw [addressByScan_eq, Lookup.answer_orNotFound_eq_notFound_iff structural_search_entryStep,
      Lookup.answer_search_eq_none_iff]
    simp only [answer_search_subprograms_eq_none_iff]
  · intro unit _ subprogram hmem hstart
    exact Subprogram.answer_range?_of_start?_eq_none
      (Subprogram.ofEntry_of_mem_subprograms hmem) hstart _

/-- A function whose code is listed, and one with an entry that only declares it. -/
def listedAndDeclared : Image := Blueprint.image {
  units := [⟨Bytes.ofText "a", [⟨Bytes.ofText "listed", 0x80, 16, [], false, .rangeList⟩,
    ⟨Bytes.ofText "work", 0x100, 16, [], false, .separatelyDeclared⟩], []⟩]
  symbols := []
  addressIndex := false
  danglingNames := [] }

/-- The declaration is skipped for the entry with the code, and the function whose code is listed
is not found by where its list starts. -/
theorem listedAndDeclared_addressByScan :
    (∃ unit ∈ listedAndDeclared.sections.units.items, ∃ entry ∈ unit.entries.items,
      listedAndDeclared.sections.Describes (Bytes.ofText "work") unit entry ∧
        entry.StartsAt 0x100) ∧
    ∀ unit ∈ listedAndDeclared.sections.units.items,
      listedAndDeclared.sections.Excludes (Bytes.ofText "listed") unit := by
  have hwork : (listedAndDeclared.sections.addressByScan (Bytes.ofText "work")).answer =
      .ok 0x100 := by decide +kernel
  have hlisted : (listedAndDeclared.sections.addressByScan (Bytes.ofText "listed")).answer =
      .error .notFound := by decide +kernel
  obtain ⟨hfound, -⟩ :=
    addressByScan_in_document_order listedAndDeclared.sections (Bytes.ofText "work")
  obtain ⟨-, hnone, -⟩ :=
    addressByScan_in_document_order listedAndDeclared.sections (Bytes.ofText "listed")
  obtain ⟨_, unit, _, hunits, -, _, entry, _, hentries, -, -, hdescribes, hstarts⟩ :=
    (hfound 0x100).mp hwork
  refine ⟨⟨unit, ?_, entry, ?_, hdescribes, hstarts⟩, (hnone.mp hlisted).2⟩
  · rw [hunits]
    exact List.mem_append_right _ List.mem_cons_self
  · rw [hentries]
    exact List.mem_append_right _ List.mem_cons_self

end Sections

end Symbolizer.Dwarf
