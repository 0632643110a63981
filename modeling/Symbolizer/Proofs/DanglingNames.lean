import Symbolizer.Proofs.Blueprint.NameIndex
import Symbolizer.Proofs.FunctionEntries
import Symbolizer.Proofs.NameSources

/-! # Index entries that lead nowhere

The index of names is trusted to lead to units and entries that exist. An entry of a name
that does not is corrupt data and ends the search for the name, before any other source is
asked. An entry that leads to something else than a function with an address is passed
over, and an index of which all entries of a name are passed over is as good as none.
-/

namespace Symbolizer

namespace Dwarf.Sections

variable {sections : Sections} {indexed : IndexedName} {name : Bytes}

/-- An entry of the index leads to no concrete subprogram, or to one that states no address. -/
inductive PassesOver (sections : Sections) (indexed : IndexedName) : Prop
  | notFunction {unit : CompileUnit} {entry : Entry}
      (hunit : sections.unitAt indexed.unit = .ok unit)
      (hentry : unit.entryAt indexed.entry = .ok entry)
      (hother : Subprogram.ofEntry entry = .ok none)
  | noAddress {unit : CompileUnit} {entry : Entry} {subprogram : Subprogram}
      (hunit : sections.unitAt indexed.unit = .ok unit)
      (hentry : unit.entryAt indexed.entry = .ok entry)
      (hfunction : Subprogram.ofEntry entry = .ok (some subprogram))
      (hstart : subprogram.start? = .ok none)

/-- An entry of the index leads nowhere, for which there is a cause. -/
inductive Dangles (sections : Sections) (indexed : IndexedName) : DecodeError → Prop
  | pastUnits (hpast : sections.info.length ≤ indexed.unit) : Dangles sections indexed .endOfInput
  | noUnit {cause : DecodeError} (hunit : sections.unitAt indexed.unit = .error cause) :
      Dangles sections indexed cause
  | outsideUnit {unit : CompileUnit} (hunit : sections.unitAt indexed.unit = .ok unit)
      (houtside : indexed.entry < unit.header.size ∨ unit.header.unitSize ≤ indexed.entry) :
      Dangles sections indexed .outOfBounds
  | noEntry {unit : CompileUnit} {cause : DecodeError}
      (hunit : sections.unitAt indexed.unit = .ok unit)
      (hentry : unit.entryAt indexed.entry = .error cause) : Dangles sections indexed cause

theorem answer_indexStep_of_ne (hname : indexed.name ≠ name) :
    (sections.indexStep name indexed).answer = .ok none := by
  rw [indexStep, if_pos hname]
  rfl

theorem answer_indexStep_of_passesOver (h : sections.PassesOver indexed) :
    (sections.indexStep name indexed).answer = .ok none := by
  by_cases hname : indexed.name = name
  · cases h with
    | notFunction hunit hentry hother =>
        rw [indexStep, if_neg (not_not_intro hname),
          Lookup.answer_bind_of_ok (Lookup.answer_decode_ok hunit),
          Lookup.answer_bind_of_ok (Lookup.answer_decode_ok hentry),
          Lookup.answer_bind_of_ok (Lookup.answer_decode_ok hother)]
        rfl
    | noAddress hunit hentry hfunction hstart =>
        rw [indexStep, if_neg (not_not_intro hname),
          Lookup.answer_bind_of_ok (Lookup.answer_decode_ok hunit),
          Lookup.answer_bind_of_ok (Lookup.answer_decode_ok hentry),
          Lookup.answer_bind_of_ok (Lookup.answer_decode_ok hfunction),
          Subprogram.answer_startOrFirst? (Subprogram.ofEntry_entry hfunction), hstart]
        rfl
  · exact answer_indexStep_of_ne hname

/-- No way of leading nowhere passes for absence. -/
theorem answer_indexStep_of_dangles {cause : DecodeError} (h : sections.Dangles indexed cause) :
    (sections.indexStep indexed.name indexed).answer = .error (.format cause) := by
  have hentry {unit : CompileUnit} {cause : DecodeError}
      (hunit : sections.unitAt indexed.unit = .ok unit)
      (hentry : unit.entryAt indexed.entry = .error cause) :
      (sections.indexStep indexed.name indexed).answer = .error (.format cause) := by
    rw [indexStep, if_neg (not_not_intro rfl),
      Lookup.answer_bind_of_ok (Lookup.answer_decode_ok hunit), hentry]
    rfl
  have hunit {cause : DecodeError} (hunit : sections.unitAt indexed.unit = .error cause) :
      (sections.indexStep indexed.name indexed).answer = .error (.format cause) := by
    rw [indexStep, if_neg (not_not_intro rfl), hunit]
    rfl
  cases h with
  | pastUnits hpast => exact hunit (Blueprint.unitAt_of_length_le hpast)
  | noUnit hnone => exact hunit hnone
  | outsideUnit hfound houtside =>
      refine hentry hfound ?_
      rw [CompileUnit.entryAt]
      simp only [houtside, if_true]
      rfl
  | noEntry hfound hnone => exact hentry hfound hnone

/-- Behind entries that are passed over, one that leads nowhere is the answer. -/
theorem answer_addressByIndex_of_dangles {before behind : List IndexedName} {cause : DecodeError}
    (hitems : sections.indexedNames.items = before ++ indexed :: behind)
    (hbefore : ∀ earlier ∈ before, earlier.name = indexed.name → sections.PassesOver earlier)
    (h : sections.Dangles indexed cause) :
    (sections.addressByIndex indexed.name).answer = .error (.format cause) := by
  apply Lookup.answer_orNotFound_error
  apply Lookup.answer_search_error
  rw [hitems]
  apply Lookup.answer_firstOf_error _ (answer_indexStep_of_dangles h)
  intro earlier hearlier
  by_cases hname : earlier.name = indexed.name
  · exact answer_indexStep_of_passesOver (hbefore earlier hearlier hname)
  · exact answer_indexStep_of_ne hname

theorem answer_addressByIndex_of_passesOver (hread : sections.indexedNames.fault = none)
    (h : ∀ indexed ∈ sections.indexedNames.items, indexed.name = name →
      sections.PassesOver indexed) :
    (sections.addressByIndex name).answer = .error .notFound := by
  apply Lookup.answer_orNotFound_none
  refine Lookup.answer_search_eq_none_iff.mpr ⟨hread, fun indexed hindexed => ?_⟩
  by_cases hname : indexed.name = name
  · exact answer_indexStep_of_passesOver (h indexed hindexed hname)
  · exact answer_indexStep_of_ne hname

/-- The same sections with an index that lists nothing. -/
def withoutNameIndex (sections : Sections) : Sections := { sections with publicNames := [] }

theorem answer_addressByIndex_withoutNameIndex (sections : Sections) (name : Bytes) :
    (sections.withoutNameIndex.addressByIndex name).answer = .error .notFound := by
  have hempty : sections.withoutNameIndex.indexedNames = ⟨[], none⟩ := by
    rw [indexedNames, withoutNameIndex, Decoded.unfold_nil]
    rfl
  apply answer_addressByIndex_of_passesOver
  · rw [hempty]
  · simp [hempty]

/-- Names of entries are not looked for in the index. -/
theorem referencedName_withoutNameIndex (sections : Sections) (hops : Nat) :
    sections.withoutNameIndex.referencedName hops = sections.referencedName hops := by
  induction hops with
  | zero => rfl
  | succ hops ih =>
      funext unit reference
      rw [referencedName, referencedName, ih]
      rfl

theorem addressByScan_withoutNameIndex (sections : Sections) (name : Bytes) :
    sections.withoutNameIndex.addressByScan name = sections.addressByScan name := by
  have hname : sections.withoutNameIndex.subprogramName = sections.subprogramName := by
    funext unit subprogram
    rw [subprogramName, subprogramName, referencedName_withoutNameIndex]
    rfl
  rw [addressByScan, addressByScan, hname]
  rfl

end Dwarf.Sections

namespace Image

def withoutNameIndex (image : Image) : Image :=
  { image with sections := image.sections.withoutNameIndex }

/-- A name is not resolved past an entry of the index that leads nowhere. That the index is corrupt
is the end, whatever comes behind in the index and in other sources. Where all its entries are
passed over, the name is resolved as without an index. -/
theorem resolveName_dangling (image : Image) :
    (∀ before indexed behind cause,
      image.sections.indexedNames.items = before ++ indexed :: behind →
      (∀ earlier ∈ before, earlier.name = indexed.name → image.sections.PassesOver earlier) →
      image.sections.Dangles indexed cause →
      ∃ fatal, (image.resolveName indexed.name).start.1 = .error fatal ∧
        fatal.message = "name index is malformed: " ++ (LookupError.format cause).message) ∧
    ∀ name, image.sections.indexedNames.fault = none →
      (∀ indexed ∈ image.sections.indexedNames.items, indexed.name = name →
        image.sections.PassesOver indexed) →
      (image.resolveName name).start.1 = (image.withoutNameIndex.resolveName name).start.1 := by
  have hresult (image : Image) (name : Bytes) : (image.resolveName name).start.1 =
      image.sections.engine.named image.symbolTable name :=
    (Engine.resolveName_yields_named _ _ _).start
  refine ⟨fun before indexed behind cause hitems hbefore hdangles => ?_,
    fun name hread hpassed => ?_⟩
  · have hindex := Dwarf.Sections.answer_addressByIndex_of_dangles hitems hbefore hdangles
    refine ⟨.malformedIndex (.format cause), ?_, rfl⟩
    rw [hresult, Engine.named_eq_error_iff]
    exact ⟨.format cause, nofun, Or.inl ⟨hindex, rfl⟩⟩
  · rw [hresult, hresult]
    apply Engine.named_congr
    · exact (Dwarf.Sections.answer_addressByIndex_of_passesOver hread hpassed).trans
        (Dwarf.Sections.answer_addressByIndex_withoutNameIndex _ _).symm
    · intro _
      have hscan := image.sections.addressByScan_withoutNameIndex name
      exact ⟨congrArg Lookup.answer hscan.symm, fun _ => rfl⟩

/-- A unit with two variables, and behind its names one that points past all units. -/
def strayName : Image :=
  Blueprint.image {
    units := [⟨Bytes.ofText "a", [], [Bytes.ofText "ticks", Bytes.ofText "hz"]⟩]
    symbols := []
    addressIndex := true
    danglingNames := [⟨Bytes.ofText "ticks", 0x1000⟩] }

/-- The variable of the stray name is passed over, and then the index is found corrupt. The other
name has nothing but its variable in the index. -/
theorem strayName_resolveName :
    (∃ fatal, (strayName.resolveName (Bytes.ofText "ticks")).start.1 = .error fatal ∧
      fatal.message = "name index is malformed: " ++ (LookupError.format .endOfInput).message) ∧
    (strayName.resolveName (Bytes.ofText "hz")).start.1 =
      (strayName.withoutNameIndex.resolveName (Bytes.ofText "hz")).start.1 := by
  have hindex : strayName.sections.indexedNames = ⟨[⟨0, 18, Bytes.ofText "ticks"⟩,
      ⟨0, 26, Bytes.ofText "hz"⟩, ⟨0x1000, 11, Bytes.ofText "ticks"⟩], none⟩ := by decide +kernel
  have hvariable {entry : Nat} (name : Bytes)
      (h : (strayName.sections.unitAt 0 >>= fun unit =>
        unit.entryAt entry >>= Dwarf.Subprogram.ofEntry) = .ok none) :
      strayName.sections.PassesOver ⟨0, entry, name⟩ := by
    obtain ⟨unit, hunit, h⟩ := Except.bind_eq_ok_iff.mp h
    obtain ⟨found, hentry, hother⟩ := Except.bind_eq_ok_iff.mp h
    exact .notFunction hunit hentry hother
  obtain ⟨hcorrupt, hpassed⟩ := strayName.resolveName_dangling
  refine ⟨?_, hpassed _ (by rw [hindex]) ?_⟩
  · refine hcorrupt [⟨0, 18, Bytes.ofText "ticks"⟩, ⟨0, 26, Bytes.ofText "hz"⟩]
      ⟨0x1000, 11, Bytes.ofText "ticks"⟩ [] .endOfInput (by rw [hindex]; rfl) ?_
      (.pastUnits ?_)
    · intro earlier hearlier hname
      simp only [List.mem_cons, List.not_mem_nil, or_false] at hearlier
      rcases hearlier with rfl | rfl
      · exact hvariable _ (by decide +kernel)
      · exact absurd hname (by decide)
    · have hlength : strayName.sections.info.length = 32 := by decide +kernel
      rw [hlength]
      decide
  · rw [hindex]
    intro indexed hindexed hname
    simp only [List.mem_cons, List.not_mem_nil, or_false] at hindexed
    rcases hindexed with rfl | rfl | rfl
    · exact absurd hname (by decide)
    · exact hvariable _ (by decide +kernel)
    · exact absurd hname (by decide)

end Image

end Symbolizer
