import Symbolizer.Proofs.Blueprint.Placement
import Symbolizer.Proofs.EntryPlaces
import Symbolizer.Proofs.EntryScan
import Symbolizer.Proofs.UnitScan

/-! # The search for the function around an address

The entries of a unit are searched in document order for the first function with code of
its own that holds the address and with a name. What an entry says of its code need not
be readable: such an entry counts as one without code, so it hides itself and nothing
else. Names are resolved only where the code holds the address, and only there an error
can come from them.
-/

namespace Symbolizer.Dwarf

/-- The entry is one of a function with code of its own, and the range of that holds the
address. -/
structure Entry.Encloses (entry : Entry) (address : Address) (range : AddressRange) : Prop where
  concrete : entry.Concrete
  range_eq : entry.range? = .ok (some range)
  contains : range.contains address = true

namespace Sections

section Search

variable (sections : Sections) (address : Address) (unit : CompileUnit)

/-- What the search for the function around an address asks of a subprogram. -/
def functionStep (subprogram : Subprogram) : Lookup (Option Function) := do
  match ← subprogram.range? (·.contains address) with
  | none => pure none
  | some range =>
    match ← Lookup.ofExcept (sections.subprogramName unit subprogram) with
    | none =>
      Lookup.tell (.unnamedSubprogram address)
      pure none
    | some name =>
      let start ← Lookup.decode subprogram.start?
      pure (some ⟨name, start.getD range.first⟩)

/-- What the search asks of an entry. -/
def entryFunction (entry : Entry) : Lookup (Option Function) :=
  Lookup.search (concreteSubprogram entry) (sections.functionStep address unit)

/-- The function that is found around an address where no other entries are searched. -/
def functionAmong (entries : List Entry) : Except LookupError Function :=
  (Lookup.orNotFound (Lookup.firstOf (sections.entryFunction address unit) entries)).answer

/-- Why the search goes on behind an entry. -/
inductive PassesBy (entry : Entry) : Prop
  | notConcrete (h : ¬entry.Concrete)
  | notCovering (h : ¬entry.Covers address)
  | unnamed (h : sections.subprogramName unit entry.subprogram = .ok none)

end Search

variable {sections : Sections} {address : Address} {unit : CompileUnit} {entry : Entry}

theorem structural_entryFunction (entry : Entry) :
    Structural (sections.entryFunction address unit entry).answer := by
  refine Lookup.structural_search (fun subprogram => Lookup.structural_bind ?_ fun range? => ?_) _
  · rw [Subprogram.answer_range?]
    exact .ok _
  · cases range? with
    | none => exact .ok none
    | some range =>
        apply Lookup.structural_bind (sections.structural_subprogramName unit subprogram)
        intro name?
        cases name? with
        | none => exact .ok none
        | some name => exact Lookup.structural_bind (.format _) fun start => .ok _

/-- Code that does not hold the address, or of which that cannot be read, is passed by. -/
theorem answer_functionStep_of_not_covers (h : ¬entry.Covers address) :
    (sections.functionStep address unit entry.subprogram).answer = .ok none := by
  have hnone : (entry.subprogram.range? (·.contains address)).answer = .ok none := by
    cases hfound : entry.range?.toOption.join.filter (·.contains address) with
    | none => rw [Subprogram.answer_range?, Entry.subprogram, hfound]
    | some range =>
        have hanswer := Subprogram.answer_range? entry.subprogram (·.contains address)
        rw [Entry.subprogram, hfound] at hanswer
        exact absurd ⟨range, Subprogram.answer_range?_eq_some_iff.mp hanswer⟩ h
  exact Lookup.answer_bind_of_ok hnone _

section Read

variable (hread : entry.attributes.fault = none)
include hread

theorem answer_entryFunction_of_concrete (h : entry.Concrete) :
    (sections.entryFunction address unit entry).answer =
      (sections.functionStep address unit entry.subprogram).answer := by
  rw [entryFunction, concreteSubprogram, h.ofEntry hread, Lookup.answer_search_one]

/-- Of a function whose code holds the address nothing but the name is still open. -/
theorem answer_entryFunction_of_encloses {range : AddressRange}
    (h : entry.Encloses address range) :
    (sections.entryFunction address unit entry).answer =
      (sections.subprogramName unit entry.subprogram).map
        fun name? => name?.map fun name => ⟨name, range.first⟩ := by
  have hsome : (entry.subprogram.range? (·.contains address)).answer = .ok (some range) :=
    Subprogram.answer_range?_eq_some_iff.mpr ⟨h.range_eq, h.contains⟩
  have hstart : entry.subprogram.start? = .ok (some range.first) :=
    Subprogram.start?_of_range? (h.concrete.ofEntry hread) h.range_eq
  rw [answer_entryFunction_of_concrete hread h.concrete]
  refine (Lookup.answer_bind_of_ok hsome _).trans ?_
  dsimp only
  rw [Lookup.answer_bind, hstart]
  cases sections.subprogramName unit entry.subprogram with
  | error e => rfl
  | ok name? => cases name? <;> rfl

/-- All other entries are passed by, be it that they are none of functions or that their code
is elsewhere or unknown. -/
theorem answer_entryFunction_of_not_encloses (h : ∀ range, ¬entry.Encloses address range) :
    (sections.entryFunction address unit entry).answer = .ok none ∧
      sections.PassesBy address unit entry := by
  by_cases hconcrete : entry.Concrete
  · have hcovers : ¬entry.Covers address := by
      rintro ⟨range, hrange, hcontains⟩
      exact h range ⟨hconcrete, hrange, hcontains⟩
    rw [answer_entryFunction_of_concrete hread hconcrete]
    exact ⟨answer_functionStep_of_not_covers hcovers, .notCovering hcovers⟩
  · rw [entryFunction, concreteSubprogram, Entry.ofEntry_of_not_concrete hconcrete]
    exact ⟨rfl, .notConcrete hconcrete⟩

/-- The search goes on behind an entry for no other reasons. -/
theorem answer_entryFunction_eq_none_iff :
    (sections.entryFunction address unit entry).answer = .ok none ↔
      sections.PassesBy address unit entry := by
  by_cases hencloses : ∃ range, entry.Encloses address range
  · obtain ⟨range, hencloses⟩ := hencloses
    rw [answer_entryFunction_of_encloses hread hencloses, Except.map_eq_ok_iff]
    constructor
    · rintro ⟨name?, hname, hnone⟩
      rw [Option.map_eq_none_iff.mp hnone] at hname
      exact .unnamed hname
    · intro h
      cases h with
      | notConcrete h => exact absurd hencloses.concrete h
      | notCovering h => exact absurd ⟨range, hencloses.range_eq, hencloses.contains⟩ h
      | unnamed h => exact ⟨none, h, rfl⟩
  · obtain ⟨hnone, hpasses⟩ :=
      answer_entryFunction_of_not_encloses hread (not_exists.mp hencloses)
    exact iff_of_true hnone hpasses

theorem answer_entryFunction_eq_some_iff {function : Function} :
    (sections.entryFunction address unit entry).answer = .ok (some function) ↔
      ∃ range, entry.Encloses address range ∧
        sections.subprogramName unit entry.subprogram = .ok (some function.name) ∧
        function.entry = range.first := by
  constructor
  · intro h
    by_cases hencloses : ∃ range, entry.Encloses address range
    · obtain ⟨range, hencloses⟩ := hencloses
      rw [answer_entryFunction_of_encloses hread hencloses, Except.map_eq_ok_iff] at h
      obtain ⟨name?, hname, hsome⟩ := h
      obtain ⟨name, rfl, rfl⟩ := Option.map_eq_some_iff.mp hsome
      exact ⟨range, hencloses, hname, rfl⟩
    · rw [(answer_entryFunction_of_not_encloses hread (not_exists.mp hencloses)).1] at h
      cases h
  · rintro ⟨range, hencloses, hname, hentry⟩
    rw [answer_entryFunction_of_encloses hread hencloses, hname, ← hentry]
    rfl

/-- An error is that of a name, and of no function but one around the address. -/
theorem answer_entryFunction_eq_error_iff {e : LookupError} :
    (sections.entryFunction address unit entry).answer = .error e ↔
      (∃ range, entry.Encloses address range) ∧
        sections.subprogramName unit entry.subprogram = .error e := by
  by_cases hencloses : ∃ range, entry.Encloses address range
  · rw [and_iff_right hencloses]
    obtain ⟨range, hencloses⟩ := hencloses
    rw [answer_entryFunction_of_encloses hread hencloses, Except.map_eq_error_iff]
  · rw [(answer_entryFunction_of_not_encloses hread (not_exists.mp hencloses)).1]
    exact iff_of_false nofun fun h => hencloses h.1

end Read

theorem answer_functionForAddress_of_unitAt {offset : Nat}
    (hunit : sections.unitAt offset = .ok unit) :
    (sections.functionForAddress address offset).answer =
      (Lookup.orNotFound
        (Lookup.search unit.subprograms (sections.functionStep address unit))).answer :=
  Lookup.answer_bind_of_ok (Lookup.answer_decode_ok hunit) _

theorem answer_functionForAddress_eq {offset : Nat} (hunit : sections.unitAt offset = .ok unit)
    (hread : unit.entries.fault = none) :
    (sections.functionForAddress address offset).answer =
      sections.functionAmong address unit unit.entries.items := by
  have hsearch : (Lookup.search unit.subprograms (sections.functionStep address unit)).answer =
      (Lookup.firstOf (sections.entryFunction address unit) unit.entries.items).answer :=
    (Lookup.answer_search_flatMap _ concreteSubprogram _).trans
      (Lookup.answer_search_of_fault_eq_none _ hread)
  exact (answer_functionForAddress_of_unitAt hunit).trans (Lookup.answer_orNotFound_congr hsearch)

/-- In a unit of which all entries and attributes can be read, the function around an address is
that of the first entry, in document order and at any depth, that is one of a function with code of
its own whose range holds the address and whose name is found. It starts where the range does. An
error that does not mean absence is that of a name which cannot be resolved, of a function around
the address and with nothing found in front of it. An entry is looked up by its offset without an
error, and those whose description of their code comes to no range could as well not be there. -/
theorem functionForAddress_in_document_order (address : Address) {offset : Nat}
    (hunit : sections.unitAt offset = .ok unit) (hread : unit.entries.fault = none) :
    (∀ function, (sections.functionForAddress address offset).answer = .ok function ↔
      ∃ before entry behind, unit.entries.items = before ++ entry :: behind ∧
        (∀ other ∈ before, sections.PassesBy address unit other) ∧
        ∃ range, entry.Encloses address range ∧
          sections.subprogramName unit entry.subprogram = .ok (some function.name) ∧
          function.entry = range.first) ∧
    ((sections.functionForAddress address offset).answer = .error .notFound ↔
      ∀ entry ∈ unit.entries.items, sections.PassesBy address unit entry) ∧
    (∀ error, error ≠ .notFound →
      ((sections.functionForAddress address offset).answer = .error error ↔
        ∃ before entry behind, unit.entries.items = before ++ entry :: behind ∧
          (∀ other ∈ before, sections.PassesBy address unit other) ∧
          (∃ range, entry.Encloses address range) ∧
          sections.subprogramName unit entry.subprogram = .error error)) ∧
    (∀ entry ∈ unit.entries.items, unit.entryAt entry.offset = .ok entry) ∧
    ∀ keep : Entry → Bool,
      (∀ entry ∈ unit.entries.items, keep entry = false →
        ∀ range, entry.range? ≠ .ok (some range)) →
      (sections.functionForAddress address offset).answer =
        sections.functionAmong address unit (unit.entries.items.filter keep) := by
  have hattributes : ∀ entry ∈ unit.entries.items, entry.attributes.fault = none :=
    fun _ => unit.fault_attributes hread
  have hpasses : ∀ entry ∈ unit.entries.items,
      (sections.entryFunction address unit entry).answer = .ok none ↔
        sections.PassesBy address unit entry :=
    fun entry hentry => answer_entryFunction_eq_none_iff (hattributes entry hentry)
  rw [answer_functionForAddress_eq hunit hread, functionAmong]
  refine ⟨fun function => ?_, ?_, fun error herror => ?_,
    fun entry hentry => unit.entryAt_of_mem_entries hentry, fun keep hkeep => ?_⟩
  · rw [Lookup.answer_orNotFound_eq_ok_iff, Lookup.answer_firstOf_eq_some_iff]
    exact Lookup.exists_split_congr hpasses fun entry hentry =>
      answer_entryFunction_eq_some_iff (hattributes entry hentry)
  · rw [Lookup.answer_orNotFound_eq_notFound_iff
      (Lookup.structural_firstOf structural_entryFunction _), Lookup.answer_firstOf_eq_none_iff]
    exact forall₂_congr hpasses
  · rw [Lookup.answer_orNotFound_eq_error_iff herror, Lookup.answer_firstOf_eq_error_iff]
    exact Lookup.exists_split_congr hpasses fun entry hentry =>
      answer_entryFunction_eq_error_iff (hattributes entry hentry)
  · have hfilter := Lookup.answer_firstOf_filter (f := sections.entryFunction address unit)
      fun entry hentry hnot => (hpasses entry hentry).mpr
        (.notCovering fun ⟨range, hrange, _⟩ => hkeep entry hentry hnot range hrange)
    exact (Lookup.answer_orNotFound_congr hfilter).symm

/-- Two functions whose code is listed, the second one unreadably, in front of one whose code is
stated by bounds. -/
def listedBeforeWork : Sections := Blueprint.sections {
  units := [⟨Bytes.ofText "a", [⟨Bytes.ofText "cold", 0x100, 32, [], false, .rangeList⟩,
    ⟨Bytes.ofText "slow", 0x120, 32, [], false, .rangeList⟩,
    ⟨Bytes.ofText "work", 0x140, 32, [], false, .outOfLine⟩], []⟩]
  symbols := []
  addressIndex := false
  danglingNames := [] }

/-- The function behind the two is found, and it is found as well where they are left out. -/
theorem listedBeforeWork_functionForAddress :
    ∃ unit, listedBeforeWork.unitAt 0 = .ok unit ∧ unit.entries.fault = none ∧
      unit.entries.items.map Entry.range? = [.ok (some ⟨0x100, 0x160⟩), .ok none,
        .error .endOfInput, .ok none, .ok (some ⟨0x140, 0x160⟩)] ∧
      (∃ before entry behind, unit.entries.items = before ++ entry :: behind ∧
        (∀ other ∈ before, listedBeforeWork.PassesBy 0x148 unit other) ∧
        ∃ range, entry.Encloses 0x148 range ∧ range.first = 0x140) ∧
      listedBeforeWork.functionAmong 0x148 unit
        (unit.entries.items.filter fun entry => entry.range?.toOption.join.isSome) =
          .ok ⟨Bytes.ofText "work", 0x140⟩ := by
  have hentries : (listedBeforeWork.unitAt 0).map (fun unit =>
      (unit.entries.fault, unit.entries.items.map Entry.range?)) = .ok (none,
        [.ok (some ⟨0x100, 0x160⟩), .ok none, .error .endOfInput, .ok none,
          .ok (some ⟨0x140, 0x160⟩)]) := by decide +kernel
  have hwork : (listedBeforeWork.functionForAddress 0x148 0).answer =
      .ok ⟨Bytes.ofText "work", 0x140⟩ := by decide +kernel
  obtain ⟨unit, hunit, hentries⟩ := Except.map_eq_ok_iff.mp hentries
  obtain ⟨hread, hranges⟩ := Prod.mk.inj hentries
  obtain ⟨hfound, -, -, -, hkeep⟩ :=
    functionForAddress_in_document_order 0x148 hunit hread
  refine ⟨unit, hunit, hread, hranges, ?_, ?_⟩
  · obtain ⟨before, entry, behind, hitems, hbefore, range, hencloses, -, hstart⟩ :=
      (hfound _).mp hwork
    exact ⟨before, entry, behind, hitems, hbefore, range, hencloses, hstart.symm⟩
  · rw [← hwork]
    refine (hkeep _ fun entry _ hnot range hrange => ?_).symm
    rw [hrange] at hnot
    cases hnot

end Sections

end Symbolizer.Dwarf
