import Symbolizer.Dwarf.Engine
import Symbolizer.Proofs.Outcomes
import Symbolizer.Proofs.Sequences
import Symbolizer.Proofs.Searches

/-! # Units that the index of addresses leaves out

An address that no indexed range covers is looked for in the units themselves, by what
each says of its own code. A description that cannot be read ends the search there, so
units behind it are found only if all descriptions in front of them are readable.
-/

namespace Symbolizer.Dwarf

/-- The root of a decoded unit is the first of its entries, its attributes have all been read, and
the unit has the name that it states. -/
theorem Sections.root_of_decodeUnit {sections : Sections} {header : UnitHeader}
    {unit : CompileUnit} (h : sections.decodeUnit header = .ok unit) :
    unit.root ∈ (header.readEntries unit.table).items ∧ unit.root.attributes.fault = none ∧
      unit.name = (Attribute.last .name unit.root.attributes.items).bind fun value =>
        (sections.string value).toOption := by
  simp only [decodeUnit, Except.bind_eq_ok_iff, Decoded.toExcept_eq_ok_iff] at h
  obtain ⟨table, _, root, hroot, attributes, ⟨hfault, rfl⟩, _, _, h⟩ := h
  have hfirst : root ∈ (header.readEntries table).items := by
    rw [UnitHeader.root] at hroot
    split at hroot
    next hitems =>
      cases hroot
      rw [hitems]
      exact List.mem_cons_self
    next => cases hroot
    next => cases hroot
  split at h
  · obtain ⟨_, _, h⟩ := Except.bind_eq_ok_iff.mp h
    cases h
    exact ⟨hfirst, hfault, rfl⟩
  · cases h
    exact ⟨hfirst, hfault, rfl⟩

theorem Sections.fault_root_of_mem_units {sections : Sections} {unit : CompileUnit}
    (h : unit ∈ sections.units.items) : unit.root.attributes.fault = none := by
  obtain ⟨header, _, hunit⟩ := Decoded.exists_of_mem_flatMapItems h
  exact (root_of_decodeUnit (Decoded.mem_ofExcept hunit)).2.1

namespace Entry

/-- The bounds in front of the first list of ranges have forms that state addresses or sizes,
and that list, if there is one, is the one at offset zero. -/
structure RangesReadable (entry : Entry) : Prop where
  bounds : ∀ a ∈ entry.attributes.items.takeWhile (!·.describesRangeList), a.checkBound = .ok ()
  list : ∀ a, entry.attributes.items.find? (·.describesRangeList) = some a →
    a.value = .sectionOffset 0

/-- What the entry says of its code can be read and covers the address. -/
def Covers (entry : Entry) (address : Address) : Prop :=
  ∃ range, entry.range? = .ok (some range) ∧ range.contains address = true

/-- The entry lists no ranges, and the address lies between the bounds that it states. -/
def BoundsContain (entry : Entry) (address : Address) : Prop :=
  (∀ a ∈ entry.attributes.items, a.describesRangeList = false) ∧
    ∃ range, AddressRange.between? entry.attributes.items = some range ∧
      range.contains address = true

end Entry

theorem Value.emptyRangeList_eq_ok_iff {value : Value} :
    value.emptyRangeList = .ok () ↔ value = .sectionOffset 0 := by
  constructor
  · intro h
    unfold emptyRangeList at h
    split at h
    · rfl
    · cases h
  · rintro rfl
    rfl

namespace Entry

variable {entry : Entry} {address : Address}

/-- A description is read exactly where it is readable. -/
theorem exists_range_iff (hfault : entry.attributes.fault = none) :
    (∃ range, entry.range? = .ok range) ↔ entry.RangesReadable := by
  have hall : entry.attributes.toExcept = .ok entry.attributes.items :=
    Decoded.toExcept_eq_ok_iff.mpr ⟨hfault, rfl⟩
  simp only [range?, Except.bind_eq_ok_iff, Except.forM_eq_ok_iff, hall]
  constructor
  · rintro ⟨range, ⟨⟩, hbounds, hlist⟩
    refine ⟨hbounds, fun a ha => ?_⟩
    rw [ha] at hlist
    obtain ⟨_, hempty, _⟩ := Except.bind_eq_ok_iff.mp hlist
    exact Value.emptyRangeList_eq_ok_iff.mp hempty
  · rintro ⟨hbounds, hlist⟩
    cases hfind : entry.attributes.items.find? (·.describesRangeList) with
    | none => exact ⟨_, (), hbounds, rfl⟩
    | some a =>
        refine ⟨none, (), hbounds, Except.bind_eq_ok_iff.mpr ⟨(), ?_, rfl⟩⟩
        exact Value.emptyRangeList_eq_ok_iff.mpr (hlist a hfind)

/-- Where no ranges are listed, a readable description is the one by bounds. -/
theorem covers_of_boundsContain (hfault : entry.attributes.fault = none)
    (hbounds : entry.BoundsContain address) (hreadable : entry.RangesReadable) :
    entry.Covers address := by
  obtain ⟨hlist, range, hbetween, hcontains⟩ := hbounds
  have hnone : entry.attributes.items.find? (·.describesRangeList) = none := by
    rw [List.find?_eq_none]
    intro a ha
    rw [hlist a ha]
    exact Bool.false_ne_true
  have hchecked : (entry.attributes.items.takeWhile (!·.describesRangeList)).forM
      Attribute.checkBound = .ok () := Except.forM_eq_ok_iff.mpr hreadable.bounds
  refine ⟨range, ?_, hcontains⟩
  rw [range?, hchecked, hnone, Decoded.toExcept_eq_ok_iff.mpr ⟨hfault, rfl⟩, ← hbetween]
  rfl

end Entry

namespace Sections

variable {sections : Sections} {address : Address}

/-- What the scan asks of a unit. -/
def scanStep (address : Address) (unit : CompileUnit) : Lookup (Option Nat) := do
  let range ← Lookup.decode unit.root.range?
  pure (if range.any (·.contains address) then some unit.header.offset else none)

theorem scanStep_of_covers {unit : CompileUnit} (h : unit.root.Covers address) :
    (scanStep address unit).answer = .ok (some unit.header.offset) := by
  obtain ⟨range, hrange, hcontains⟩ := h
  rw [scanStep, Lookup.answer_bind_of_ok (Lookup.answer_decode_ok hrange), Option.any_some,
    hcontains]
  rfl

theorem scanStep_of_not_covers {unit : CompileUnit} (hfault : unit.root.attributes.fault = none)
    (hreadable : unit.root.RangesReadable) (h : ¬unit.root.Covers address) :
    (scanStep address unit).answer = .ok none := by
  obtain ⟨range, hrange⟩ := (Entry.exists_range_iff hfault).mpr hreadable
  have hany : range.any (·.contains address) = false := by
    rw [Bool.eq_false_iff]
    intro hany
    obtain ⟨found, rfl, hcontains⟩ := (Option.any_eq_true _ _).mp hany
    exact h ⟨found, hrange, hcontains⟩
  rw [scanStep, Lookup.answer_bind_of_ok (Lookup.answer_decode_ok hrange), hany]
  rfl

theorem scanStep_of_error {unit : CompileUnit} {cause : DecodeError}
    (h : unit.root.range? = .error cause) :
    (scanStep address unit).answer = .error (.format cause) := by
  rw [scanStep, Lookup.answer_bind_of_error]
  rw [Lookup.answer_decode, h]
  rfl

theorem scanStep_of_not_readable (address : Address) {unit : CompileUnit}
    (hfault : unit.root.attributes.fault = none) (h : ¬unit.root.RangesReadable) :
    ∃ cause, (scanStep address unit).answer = .error (.format cause) := by
  cases hrange : unit.root.range? with
  | ok range => exact absurd ((Entry.exists_range_iff hfault).mp ⟨range, hrange⟩) h
  | error cause => exact ⟨cause, scanStep_of_error hrange⟩

/-- Units that do not cover the address are passed over as long as they are readable. -/
theorem firstOf_scanStep {units : List CompileUnit} (rest : List CompileUnit)
    (hfault : ∀ v ∈ units, v.root.attributes.fault = none)
    (hcovers : ∀ v ∈ units, ¬v.root.Covers address) :
    ((∀ v ∈ units, v.root.RangesReadable) ∧
      (Lookup.firstOf (scanStep address) (units ++ rest)).answer =
        (Lookup.firstOf (scanStep address) rest).answer) ∨
    ((¬∀ v ∈ units, v.root.RangesReadable) ∧
      ∃ cause, (Lookup.firstOf (scanStep address) (units ++ rest)).answer =
        .error (.format cause)) := by
  induction units with
  | nil => exact Or.inl ⟨fun v hv => absurd hv List.not_mem_nil, rfl⟩
  | cons unit units ih =>
      have hunit := hfault unit List.mem_cons_self
      rw [List.forall_mem_cons]
      by_cases hreadable : unit.root.RangesReadable
      · have hnone := scanStep_of_not_covers hunit hreadable (hcovers unit List.mem_cons_self)
        rw [List.cons_append, Lookup.answer_firstOf_cons_none hnone]
        simp only [hreadable, true_and]
        exact ih (fun v hv => hfault v (List.mem_cons_of_mem _ hv))
          fun v hv => hcovers v (List.mem_cons_of_mem _ hv)
      · obtain ⟨cause, hcause⟩ := scanStep_of_not_readable address hunit hreadable
        exact Or.inr ⟨fun h => hreadable h.1, cause, Lookup.answer_bind_of_error hcause _⟩

/-- An address outside all indexed ranges is looked for in the units. -/
theorem unitForAddress_eq_scan (hindex : sections.indexedRanges.fault = none)
    (huncovered : ∀ indexed ∈ sections.indexedRanges.items,
      indexed.range.contains address = false) :
    (sections.unitForAddress address).answer =
      (Lookup.orNotFound (Lookup.search sections.units (scanStep address))).answer := by
  have hnone : (Lookup.search sections.indexedRanges fun indexed =>
      pure (if indexed.range.contains address then some indexed.unit else none)).answer =
        .ok none := by
    rw [Lookup.answer_search_of_fault_eq_none _ hindex]
    apply Lookup.answer_firstOf_none
    intro indexed hindexed
    rw [huncovered indexed hindexed]
    rfl
  rw [unitForAddress, Lookup.answer_bind_of_ok hnone]
  exact Lookup.answer_bind_of_ok rfl _

/-- Where all units decode, an address that no indexed range covers is found in the first unit
between whose bounds it lies exactly if that unit and all units in front of it describe their
code readably. The first description that is not readable is the answer otherwise. -/
theorem unitForAddress_unindexed (hindex : sections.indexedRanges.fault = none)
    (huncovered : ∀ indexed ∈ sections.indexedRanges.items,
      indexed.range.contains address = false)
    (hunits : sections.units.fault = none) :
    (∀ before unit behind, sections.units.items = before ++ unit :: behind →
      unit.root.BoundsContain address → (∀ v ∈ before, ¬v.root.Covers address) →
      ((sections.unitForAddress address).answer = .ok unit.header.offset ↔
        ∀ v ∈ before ++ [unit], v.root.RangesReadable)) ∧
    ((∀ v ∈ sections.units.items, ¬v.root.Covers address) →
      ((sections.unitForAddress address).answer = .error .notFound ↔
        ∀ v ∈ sections.units.items, v.root.RangesReadable)) ∧
    ∀ before unit behind cause, sections.units.items = before ++ unit :: behind →
      (∀ v ∈ before, v.root.RangesReadable ∧ ¬v.root.Covers address) →
      unit.root.range? = .error cause →
      (sections.unitForAddress address).answer = .error (.format cause) := by
  have hfault : ∀ v ∈ sections.units.items, v.root.attributes.fault = none :=
    fun v hv => fault_root_of_mem_units hv
  have hsearch := Lookup.answer_search_of_fault_eq_none (scanStep address) hunits
  rw [unitForAddress_eq_scan hindex huncovered]
  refine ⟨fun before unit behind hitems hbounds hbefore => ?_, fun hcovers => ?_,
    fun before unit behind cause hitems hbefore hcause => ?_⟩
  · rw [hitems] at hsearch hfault
    have hunit := hfault unit (List.mem_append_right _ List.mem_cons_self)
    -- Either the units in front are all passed over or one of them is the error.
    rcases firstOf_scanStep (unit :: behind)
      (fun v hv => hfault v (List.mem_append_left _ hv)) hbefore with
      ⟨hreadable, hanswer⟩ | ⟨hunreadable, cause, hanswer⟩
    · by_cases hown : unit.root.RangesReadable
      · have hstep := scanStep_of_covers (Entry.covers_of_boundsContain hunit hbounds hown)
        have hfound := hsearch.trans (hanswer.trans (Lookup.answer_bind_of_ok hstep _))
        refine iff_of_true (Lookup.answer_orNotFound_some hfound) ?_
        intro v hv
        rcases List.mem_append.mp hv with hv | hv
        · exact hreadable v hv
        · rw [List.mem_singleton.mp hv]
          exact hown
      · obtain ⟨cause, hcause⟩ := scanStep_of_not_readable address hunit hown
        have herror := hsearch.trans (hanswer.trans (Lookup.answer_bind_of_error hcause _))
        rw [Lookup.answer_orNotFound_error herror]
        refine iff_of_false (by simp) fun hall => hown ?_
        exact hall unit (List.mem_append_right _ (List.mem_singleton_self _))
    · rw [Lookup.answer_orNotFound_error (hsearch.trans hanswer)]
      refine iff_of_false (by simp) fun hall => hunreadable fun v hv => ?_
      exact hall v (List.mem_append_left _ hv)
  · have hcases := firstOf_scanStep [] hfault hcovers
    rw [List.append_nil] at hcases
    rcases hcases with ⟨hreadable, hanswer⟩ | ⟨hunreadable, cause, hanswer⟩
    · exact iff_of_true (Lookup.answer_orNotFound_none (hsearch.trans hanswer)) hreadable
    · rw [Lookup.answer_orNotFound_error (hsearch.trans hanswer)]
      exact iff_of_false (by simp) hunreadable
  · rw [hitems] at hsearch hfault
    apply Lookup.answer_orNotFound_error
    rw [hsearch]
    -- Nothing in front of the unit answers, so its own error does.
    apply Lookup.answer_firstOf_error _ (scanStep_of_error hcause)
    intro v hv
    exact scanStep_of_not_covers (hfault v (List.mem_append_left _ hv)) (hbefore v hv).1
      (hbefore v hv).2

/-- Abbreviations of units that describe their code by a list of ranges, and by bounds. -/
def describedAbbreviations : List Abbreviation :=
  [⟨1, 0x11, false, [⟨.ranges, 0x17, none⟩]⟩,
    ⟨2, 0x11, false, [⟨.lowPc, 0x01, none⟩, ⟨.highPc, 0x0f, none⟩]⟩]

/-- A unit whose list of ranges is in a section that is not at hand. -/
def listedUnit : CompileUnit where
  header := ⟨0, ⟨.dwarf32, 4, .eight⟩, 0, 11, [1, 0x20, 0, 0, 0]⟩
  table := describedAbbreviations
  root := ⟨11, 0x11, ⟨[⟨.ranges, .sectionOffset 0x20⟩], none⟩⟩
  name := none
  lineProgram := none

/-- A unit whose code is the sixteen bytes from address 0x100 on. -/
def boundedUnit : CompileUnit where
  header := ⟨16, ⟨.dwarf32, 4, .eight⟩, 0, 11, [2, 0, 1, 0, 0, 0, 0, 0, 0, 0x10]⟩
  table := describedAbbreviations
  root := ⟨11, 0x11, ⟨[⟨.lowPc, .address 0x100⟩, ⟨.highPc, .constant 16⟩], none⟩⟩
  name := none
  lineProgram := none

/-- Sections that hold the two units and no index of addresses. -/
def listedBeforeBounded : Sections :=
  { Sections.empty with
    abbreviations := [1, 0x11, 0, 0x55, 0x17, 0, 0, 2, 0x11, 0, 0x11, 0x01, 0x12, 0x0f, 0, 0, 0]
    info := Bytes.sized ([4, 0, 0, 0, 0, 0, 8] ++ listedUnit.header.entries) ++
      Bytes.sized ([4, 0, 0, 0, 0, 0, 8] ++ boundedUnit.header.entries) }

/-- The unit between whose bounds an address lies is not found behind one that lists its ranges. -/
theorem listedUnit_hides_boundedUnit :
    listedBeforeBounded.units.items = [listedUnit, boundedUnit] ∧
    boundedUnit.root.BoundsContain 0x108 ∧ ¬listedUnit.root.Covers 0x108 ∧
    (listedBeforeBounded.unitForAddress 0x108).answer = .error (.format .endOfInput) := by
  have hunits : listedBeforeBounded.units = ⟨[listedUnit, boundedUnit], none⟩ := by decide +kernel
  have hindex : listedBeforeBounded.indexedRanges = ⟨[], none⟩ := by decide +kernel
  have hlisted : listedUnit.root.range? = .error .endOfInput := rfl
  refine ⟨by rw [hunits], ⟨by decide, ⟨0x100, 0x110⟩, rfl, rfl⟩, ?_, ?_⟩
  · rintro ⟨range, hrange, _⟩
    cases hlisted.symm.trans hrange
  · refine (unitForAddress_unindexed (by rw [hindex]) ?_ (by rw [hunits])).2.2 []
      listedUnit [boundedUnit] .endOfInput (by rw [hunits]; rfl) (List.forall_mem_nil _)
      hlisted
    rw [hindex]
    exact List.forall_mem_nil _

end Sections

end Symbolizer.Dwarf
