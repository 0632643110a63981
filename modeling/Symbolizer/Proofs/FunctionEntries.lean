import Symbolizer.Proofs.Blueprint.Placement
import Symbolizer.Proofs.Resolving
import Symbolizer.Proofs.Sequences

/-! # Where functions start

A function that is found for an address starts where the range does that holds the
address. Both come from the last address that the subprogram states for its start, the
one directly and the other through the bounds of its code; lists of ranges, which could
start elsewhere, are never at hand. So a call never lies in front of its function, and
the distance between them does not wrap.
-/

namespace Symbolizer

namespace Dwarf

theorem Value.plainAddress?_eq_some_iff {value : Value} {address : Address} :
    value.plainAddress? = some address ↔ value = .address address := by
  cases value <;> simp [plainAddress?]

/-- The range between the bounds starts at the last address stated for it. -/
theorem AddressRange.last_lowPc_of_between? {attributes : List Attribute} {range : AddressRange}
    (h : between? attributes = some range) :
    Attribute.last .lowPc attributes = some (.address range.first) := by
  obtain ⟨first, hfirst, hrest⟩ := Option.bind_eq_some_iff.mp h
  obtain ⟨value, hlast, hplain⟩ := Option.bind_eq_some_iff.mp hfirst
  obtain rfl := Value.plainAddress?_eq_some_iff.mp hplain
  have hrange : range.first = first := by
    split at hrest
    · cases hrest
      rfl
    · obtain ⟨limit, _, hlimit⟩ := Option.bind_eq_some_iff.mp hrest
      cases hlimit
      rfl
  rw [hlast, hrange]

/-- A range that is found is the one between the bounds. -/
theorem Entry.between?_of_range? {entry : Entry} {range : AddressRange}
    (h : entry.range? = .ok (some range)) :
    AddressRange.between? entry.attributes.items = some range := by
  obtain ⟨_, _, h⟩ := Except.bind_eq_ok_iff.mp h
  split at h
  · obtain ⟨_, _, h⟩ := Except.bind_eq_ok_iff.mp h
    cases h
  · obtain ⟨attributes, hall, h⟩ := Except.bind_eq_ok_iff.mp h
    obtain ⟨_, rfl⟩ := Decoded.toExcept_eq_ok_iff.mp hall
    exact Except.ok.inj h

/-- What the attributes of an entry say about a function. -/
def Entry.subprogram (entry : Entry) : Subprogram :=
  ⟨entry, Attribute.last .name entry.attributes.items, Attribute.last .lowPc entry.attributes.items,
    Sections.inheritance entry.attributes.items⟩

namespace Subprogram

variable {subprogram : Subprogram} {entry : Entry}

/-- A subprogram holds what the attributes of its entry say. -/
theorem eq_of_ofEntry (h : ofEntry entry = .ok (some subprogram)) :
    entry.attributes.fault = none ∧ subprogram = entry.subprogram := by
  rw [ofEntry] at h
  split at h
  · cases h
  · obtain ⟨attributes, hall, h⟩ := Except.bind_eq_ok_iff.mp h
    obtain ⟨hfault, rfl⟩ := Decoded.toExcept_eq_ok_iff.mp hall
    cases h
    exact ⟨hfault, rfl⟩

theorem ofEntry_entry (h : ofEntry entry = .ok (some subprogram)) :
    ofEntry subprogram.entry = .ok (some subprogram) := by
  obtain ⟨_, rfl⟩ := eq_of_ofEntry h
  exact h

/-- Each subprogram of a unit is that of one of its entries. -/
theorem exists_entry_of_mem_subprograms {unit : CompileUnit}
    (h : subprogram ∈ unit.subprograms.items) :
    ∃ entry ∈ unit.entries.items, ofEntry entry = .ok (some subprogram) := by
  obtain ⟨entry, hmem, hown⟩ := Decoded.exists_of_mem_flatMapItems h
  refine ⟨entry, hmem, ?_⟩
  cases hentry : ofEntry entry with
  | error e =>
      rw [hentry] at hown
      cases hown
  | ok found =>
      rw [hentry] at hown
      cases found with
      | none => cases hown
      | some found => rw [List.mem_singleton.mp hown]

theorem ofEntry_of_mem_subprograms {unit : CompileUnit} (h : subprogram ∈ unit.subprograms.items) :
    ofEntry subprogram.entry = .ok (some subprogram) := by
  obtain ⟨entry, _, hentry⟩ := exists_entry_of_mem_subprograms h
  exact ofEntry_entry hentry

/-- A subprogram with a range states that it starts where the range does. -/
theorem start?_of_range? (h : ofEntry subprogram.entry = .ok (some subprogram))
    {range : AddressRange} (hrange : subprogram.entry.range? = .ok (some range)) :
    subprogram.start? = .ok (some range.first) := by
  have hlast := AddressRange.last_lowPc_of_between? (Entry.between?_of_range? hrange)
  have hlow : subprogram.lowPc = Attribute.last .lowPc subprogram.entry.attributes.items :=
    congrArg lowPc (eq_of_ofEntry h).2
  rw [start?, hlow, hlast]
  rfl

/-- Code whose range cannot be decoded counts as code without one. -/
theorem answer_range? (subprogram : Subprogram) (accepted : AddressRange → Bool) :
    (subprogram.range? accepted).answer =
      .ok (subprogram.entry.range?.toOption.join.filter accepted) := by
  rw [range?]
  cases subprogram.entry.range? <;> rfl

theorem answer_range?_eq_some_iff {accepted : AddressRange → Bool} {range : AddressRange} :
    (subprogram.range? accepted).answer = .ok (some range) ↔
      subprogram.entry.range? = .ok (some range) ∧ accepted range = true := by
  rw [answer_range?, Except.ok.injEq, Option.filter_eq_some_iff, Option.join_eq_some_iff]
  cases subprogram.entry.range? <;> simp [Except.toOption]

/-- Code without a stated start has no range, as that would start at a stated address. -/
theorem answer_range?_of_start?_eq_none (h : ofEntry subprogram.entry = .ok (some subprogram))
    (hstart : subprogram.start? = .ok none) (accepted : AddressRange → Bool) :
    (subprogram.range? accepted).answer = .ok none := by
  rw [answer_range?]
  cases hrange : subprogram.entry.range? with
  | error e => rfl
  | ok own =>
      cases own with
      | none => rfl
      | some range =>
          rw [start?_of_range? h hrange] at hstart
          cases hstart

/-- A range never stands in for a start that is not stated. -/
theorem answer_startOrFirst? (h : ofEntry subprogram.entry = .ok (some subprogram)) :
    subprogram.startOrFirst?.answer = subprogram.start?.mapError .format := by
  cases hstart : subprogram.start? with
  | error e =>
      apply Lookup.answer_bind_of_error
      rw [Lookup.answer_decode, hstart]
      rfl
  | ok start =>
      refine (Lookup.answer_bind_of_ok (Lookup.answer_decode_ok hstart) _).trans ?_
      cases start with
      | some address => rfl
      | none => exact Lookup.answer_bind_of_ok (answer_range?_of_start?_eq_none h hstart _) _

end Subprogram

namespace Sections

variable {sections : Sections}

/-- What is found for an address is a subprogram of the unit with a name and with a range that
holds the address, and it starts where the range does. -/
theorem exists_of_functionForAddress {address : Address} {offset : Nat} {function : Function}
    (h : (sections.functionForAddress address offset).answer = .ok function) :
    ∃ unit subprogram range, sections.unitAt offset = .ok unit ∧
      subprogram ∈ unit.subprograms.items ∧
      sections.subprogramName unit subprogram = .ok (some function.name) ∧
      subprogram.entry.range? = .ok (some range) ∧ range.contains address = true ∧
      function.entry = range.first := by
  obtain ⟨unit, hunit, h⟩ := Lookup.answer_bind_eq_ok_iff.mp h
  rw [Lookup.answer_orNotFound_eq_ok_iff, Lookup.answer_search_eq_some_iff,
    Lookup.answer_firstOf_eq_some_iff] at h
  obtain ⟨before, subprogram, behind, hitems, _, h⟩ := h
  have hmem : subprogram ∈ unit.subprograms.items :=
    hitems ▸ List.mem_append_right before List.mem_cons_self
  obtain ⟨range?, hrange?, h⟩ := Lookup.answer_bind_eq_ok_iff.mp h
  cases range? with
  | none => cases h
  | some range =>
      obtain ⟨hrange, hcontains⟩ := Subprogram.answer_range?_eq_some_iff.mp hrange?
      obtain ⟨name?, hname, h⟩ := Lookup.answer_bind_eq_ok_iff.mp h
      cases name? with
      | none => cases h
      | some name =>
          obtain ⟨start?, hstart, h⟩ := Lookup.answer_bind_eq_ok_iff.mp h
          rw [Lookup.answer_decode_eq_ok_iff,
            Subprogram.start?_of_range? (Subprogram.ofEntry_of_mem_subprograms hmem)
              hrange] at hstart
          cases hstart
          cases h
          exact ⟨unit, subprogram, range, Lookup.answer_decode_eq_ok_iff.mp hunit, hmem, hname,
            hrange, hcontains, rfl⟩

end Sections

theorem AddressRange.first_le_of_contains {range : AddressRange} {address : Address}
    (h : range.contains address = true) : range.first ≤ address :=
  of_decide_eq_true (Bool.and_eq_true_iff.mp h).1

end Dwarf

/-- How far an address lies behind a function that starts at its call or in front of it. -/
theorem Location.offset_of_le_callSite {location : Location}
    (h : location.entry ≤ callSite location.address) :
    location.entry.toNat ≤ location.address.toNat - callLength ∧
      location.entry.toNat + location.offset.toNat = location.address.toNat ∧
      min callLength location.address.toNat ≤ location.offset.toNat := by
  have hentry := UInt64.le_iff_toNat_le.mp h
  rw [toNat_callSite] at hentry
  have hle : location.entry ≤ location.address := UInt64.le_iff_toNat_le.mpr (by omega)
  rw [offset, UInt64.toNat_sub_of_le _ _ hle]
  omega

/-- In a location that is filled for an address the function starts no later than the call, so that
its distance is the true one and no less than the length of the call. Whatever function is found
for an address starts where the range of its code does that holds the address. -/
theorem resolveAddress_offset_exact (image : Image) :
    (∀ config address out location, address ≠ 0 →
      (image.resolveAddress config address out).start.1 = .ok location →
      location.address = address ∧ location.entry.toNat ≤ address.toNat - callLength ∧
        location.entry.toNat + location.offset.toNat = address.toNat ∧
        min callLength address.toNat ≤ location.offset.toNat) ∧
    ∀ address offset function,
      (image.sections.functionForAddress address offset).answer = .ok function →
      function.entry ≤ address ∧
        ∃ unit subprogram range, image.sections.unitAt offset = .ok unit ∧
          subprogram ∈ unit.subprograms.items ∧
          image.sections.subprogramName unit subprogram = .ok (some function.name) ∧
          subprogram.entry.range? = .ok (some range) ∧ range.contains address = true ∧
          function.entry = range.first := by
  have hfunction {address offset function}
      (h : (image.sections.functionForAddress address offset).answer = .ok function) :
      function.entry ≤ address := by
    obtain ⟨_, _, range, _, _, _, _, hcontains, hentry⟩ :=
      Dwarf.Sections.exists_of_functionForAddress h
    exact hentry ▸ Dwarf.AddressRange.first_le_of_contains hcontains
  refine ⟨fun config address out location hzero h => ?_, fun address offset function h =>
    ⟨hfunction h, Dwarf.Sections.exists_of_functionForAddress h⟩⟩
  obtain ⟨unit, file, line, function, _, hattributes, rfl⟩ :=
    Engine.located_eq_ok_iff.mp (Engine.located_of_resolveAddress hzero h)
  exact ⟨rfl, Location.offset_of_le_callSite (hfunction hattributes.of_function)⟩

/-- A function of sixteen bytes, alone in its image. -/
def loneFunction : Image := Blueprint.image {
  units := [⟨Bytes.ofText "a", [⟨Bytes.ofText "work", 0x100, 16, [⟨0, 10⟩], true,
    .contiguous⟩], []⟩]
  symbols := []
  addressIndex := true
  danglingNames := [] }

/-- A call at the start of the function returns to an offset of its own length, and the first
address of the function is held by a range that starts there. -/
theorem loneFunction_offset :
    (∃ location, (loneFunction.resolveAddress ⟨0x100⟩ 0x105 (.fresh 0)).start.1 = .ok location ∧
      location.entry.toNat + location.offset.toNat = 0x105 ∧
      callLength ≤ location.offset.toNat) ∧
    ∃ unit subprogram range, loneFunction.sections.unitAt 0 = .ok unit ∧
      subprogram ∈ unit.subprograms.items ∧ subprogram.entry.range? = .ok (some range) ∧
      range.first = 0x100 := by
  have hunit : (loneFunction.sections.unitForAddress 0x105).answer = .ok 0 := by decide +kernel
  have hfunction : (loneFunction.sections.functionForAddress (callSite 0x105) 0).answer =
      .ok ⟨Bytes.ofText "work", 0x100⟩ := by decide +kernel
  have hattributes : loneFunction.sections.engine.Attributes 0 (callSite 0x105)
      ⟨Bytes.ofText "a", 0⟩ 10 ⟨Bytes.ofText "work", 0x100⟩ :=
    ⟨by decide +kernel, by decide +kernel, hfunction⟩
  have hlocated := Engine.located_eq_ok_iff.mpr ⟨0, _, _, _, hunit, hattributes, rfl⟩
  have hresult := (loneFunction.sections.engine.resolveAddress_yields_located (by decide)
    (by decide : (Config.mk 0x100).kernelStart ≤ 0x105) (.fresh 0)).start.trans hlocated
  obtain ⟨hcalls, hfunctions⟩ := resolveAddress_offset_exact loneFunction
  obtain ⟨_, _, hexact, hmin⟩ := hcalls _ _ _ _ (by decide) hresult
  obtain ⟨_, unit, subprogram, range, hdecoded, hmem, _, hrange, _, hentry⟩ :=
    hfunctions _ _ _ hfunction
  exact ⟨⟨_, hresult, hexact, hmin⟩, unit, subprogram, range, hdecoded, hmem, hrange, hentry.symm⟩

end Symbolizer
