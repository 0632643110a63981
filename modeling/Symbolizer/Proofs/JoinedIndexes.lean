import Symbolizer.Proofs.Blueprint.Placement
import Symbolizer.Proofs.LocalReading
import Symbolizer.Proofs.RecordedAddresses

/-! # Indexes put one behind the other

A linker puts the indexes of its inputs one behind the other. Each set of an index states
its own length, so reading goes from one set to the next whatever is inside, and no set
changes what another says. What is found in the first of two indexes is found in both
together, and where nothing is found in the first, all depends on the second.
-/

namespace Symbolizer

namespace Lookup

variable {α β : Type} {step : Dwarf.Reader (Option α)} {f : α → Lookup (Option β)}
  {first : Bytes}

/-- What is found among the first items is found however the bytes go on. -/
theorem answer_search_joined_of_some (hsteady : Dwarf.Decoded.Steady fun _ => step) {b : β}
    (h : (search (.unfold (fun _ => step) 0 first) f).answer = .ok (some b)) (second : Bytes) :
    (search (.unfold (fun _ => step) 0 (first ++ second)) f).answer = .ok (some b) := by
  obtain ⟨behind, hitems⟩ := hsteady.items_append 0 first second
  rw [answer_search_eq_some_iff] at h ⊢
  rw [← hitems, answer_firstOf_append_of_ok h]
  rfl

/-- Items without an answer are as good as none. -/
theorem answer_search_joined_of_none (hsteady : Dwarf.Decoded.Steady fun _ => step)
    (h : (search (.unfold (fun _ => step) 0 first) f).answer = .ok none) (second : Bytes) :
    (search (.unfold (fun _ => step) 0 (first ++ second)) f).answer =
      (search (.unfold (fun _ => step) 0 second) f).answer := by
  have hfault := (answer_search_eq_none_iff.mp h).1
  rw [hsteady.unfold_append hfault, answer_search_append, h,
    Dwarf.Decoded.unfold_of_constant step _ 0]
  rfl

/-- A search that reports absence as an error, over bytes put one behind the other. -/
theorem answer_orNotFound_joined (hsteady : Dwarf.Decoded.Steady fun _ => step)
    (hstructural : ∀ a, Structural (f a).answer) (first second : Bytes) :
    (∀ b, (orNotFound (search (.unfold (fun _ => step) 0 first) f)).answer = .ok b →
      (orNotFound (search (.unfold (fun _ => step) 0 (first ++ second)) f)).answer = .ok b) ∧
    ((orNotFound (search (.unfold (fun _ => step) 0 first) f)).answer = .error .notFound →
      (orNotFound (search (.unfold (fun _ => step) 0 (first ++ second)) f)).answer =
        (orNotFound (search (.unfold (fun _ => step) 0 second) f)).answer) := by
  refine ⟨fun b h => ?_, fun h => ?_⟩
  · rw [answer_orNotFound_eq_ok_iff] at h ⊢
    exact answer_search_joined_of_some hsteady h second
  · rw [answer_orNotFound_eq_notFound_iff (structural_search hstructural _)] at h
    exact answer_orNotFound_congr (answer_search_joined_of_none hsteady h second)

end Lookup

namespace Dwarf.Sections

theorem steady_readNameSet : Decoded.Steady fun _ => some <$> NameIndex.Set.read :=
  Decoded.steady_sized fun _ => _

theorem steady_readAddressSet : Decoded.Steady fun _ => some <$> AddressIndex.Set.read :=
  Decoded.steady_sized fun _ => _

/-- The same sections with another index of names. -/
def withNames (sections : Sections) (names : Bytes) : Sections :=
  { sections with publicNames := names }

/-- The same sections with another index of addresses. -/
def withRanges (sections : Sections) (ranges : Bytes) : Sections :=
  { sections with addressRanges := ranges }

/-- What the search in the index asks of a range. -/
def rangeStep (address : Address) (indexed : IndexedRange) : Lookup (Option Nat) :=
  pure (if indexed.range.contains address then some indexed.unit else none)

/-- A name is looked for in one set after the other. -/
theorem answer_addressByIndex_withNames (sections : Sections) (names name : Bytes) :
    ((sections.withNames names).addressByIndex name).answer =
      (Lookup.orNotFound (Lookup.search
        (.unfold (fun _ => some <$> NameIndex.Set.read) 0 names)
        fun set => Lookup.search set.indexedNames (sections.indexStep name))).answer :=
  Lookup.answer_orNotFound_congr (Lookup.answer_search_flatMap _ _ _)

/-- Where there are no units, an address is looked for in one set after the other. -/
theorem answer_unitForAddress_withRanges {sections : Sections} (hinfo : sections.info = [])
    (ranges : Bytes) (address : Address) :
    ((sections.withRanges ranges).unitForAddress address).answer =
      (Lookup.orNotFound (Lookup.search
        (.unfold (fun _ => some <$> AddressIndex.Set.read) 0 ranges)
        fun set => Lookup.search set.ranges (rangeStep address))).answer := by
  have hunits : (sections.withRanges ranges).units = .done := by
    rw [units, UnitHeader.readAll, withRanges, hinfo, Decoded.unfold_nil]
    rfl
  have hsearch : (Lookup.search (sections.withRanges ranges).indexedRanges
      (rangeStep address)).answer = (Lookup.search
        (.unfold (fun _ => some <$> AddressIndex.Set.read) 0 ranges)
        fun set => Lookup.search set.ranges (rangeStep address)).answer :=
    Lookup.answer_search_flatMap _ _ _
  rw [← Lookup.answer_orNotFound_congr hsearch, unitForAddress, hunits, Lookup.answer_bind]
  change (Lookup.search _ (rangeStep address)).answer >>= _ = _
  cases hindexed :
      (Lookup.search (sections.withRanges ranges).indexedRanges (rangeStep address)).answer with
  | error e => exact (Lookup.answer_orNotFound_error hindexed).symm
  | ok indexed =>
      cases indexed with
      | none => exact (Lookup.answer_orNotFound_none hindexed).symm
      | some unit => exact (Lookup.answer_orNotFound_some hindexed).symm

/-- Of two indexes put one behind the other, the first decides wherever it lists a name or covers an
address, be the second corrupt or not. A name that it lacks is resolved, and an address that it
lacks is found, by the second index alone. -/
theorem lookups_in_joined_indexes (sections : Sections) (first second : Bytes) :
    (∀ name address, ((sections.withNames first).addressByIndex name).answer = .ok address →
      ((sections.withNames (first ++ second)).addressByIndex name).answer = .ok address) ∧
    (∀ name, ((sections.withNames first).addressByIndex name).answer = .error .notFound →
      ((sections.withNames (first ++ second)).addressByIndex name).answer =
        ((sections.withNames second).addressByIndex name).answer) ∧
    (sections.info = [] →
      (∀ address unit, ((sections.withRanges first).unitForAddress address).answer = .ok unit →
        ((sections.withRanges (first ++ second)).unitForAddress address).answer = .ok unit) ∧
      ∀ address, ((sections.withRanges first).unitForAddress address).answer = .error .notFound →
        ((sections.withRanges (first ++ second)).unitForAddress address).answer =
          ((sections.withRanges second).unitForAddress address).answer) := by
  have hnames (name : Bytes) := Lookup.answer_orNotFound_joined
    steady_readNameSet
    (fun set => Lookup.structural_search (f := sections.indexStep name) structural_indexStep
      set.indexedNames) first second
  have hranges (address : Address) := Lookup.answer_orNotFound_joined
    steady_readAddressSet
    (fun set => Lookup.structural_search (f := rangeStep address) (fun indexed => .ok _) set.ranges)
    first second
  simp only [answer_addressByIndex_withNames]
  refine ⟨fun name => (hnames name).1, fun name => (hnames name).2, fun hinfo => ?_⟩
  simp only [answer_unitForAddress_withRanges hinfo]
  exact ⟨fun address => (hranges address).1, fun address => (hranges address).2⟩

/-- Two units with a function each, listed in the indexes by a set for each unit. -/
def twoUnits : Sections := Blueprint.sections {
  units := [⟨Bytes.ofText "a", [⟨Bytes.ofText "f", 0x100, 16, [], true, .contiguous⟩], []⟩,
    ⟨Bytes.ofText "b", [⟨Bytes.ofText "g", 0x200, 16, [], true, .contiguous⟩], []⟩]
  symbols := []
  addressIndex := true
  danglingNames := [] }

/-- What is left of them without their units. -/
def twoSets : Sections := { twoUnits with info := [] }

/-- The set of the first unit is not impaired by a corrupt one behind it, and does not impair the
set of the second. -/
theorem twoUnits_joined :
    ((twoUnits.withNames (twoUnits.publicNames.take 24 ++ [1])).addressByIndex
      (Bytes.ofText "f")).answer = .ok 0x100 ∧
    ((twoUnits.withNames (twoUnits.publicNames.take 24 ++
      twoUnits.publicNames.drop 24)).addressByIndex (Bytes.ofText "g")).answer = .ok 0x200 ∧
    ((twoSets.withRanges (twoSets.addressRanges.take 48 ++ [1])).unitForAddress 0x108).answer =
      .ok 0 ∧
    ((twoSets.withRanges (twoSets.addressRanges.take 48 ++
      twoSets.addressRanges.drop 48)).unitForAddress 0x208).answer = .ok 43 := by
  have hf : ((twoUnits.withNames (twoUnits.publicNames.take 24)).addressByIndex
      (Bytes.ofText "f")).answer = .ok 0x100 := by decide +kernel
  have hg : ((twoUnits.withNames (twoUnits.publicNames.take 24)).addressByIndex
      (Bytes.ofText "g")).answer = .error .notFound := by decide +kernel
  have hbehind : ((twoUnits.withNames (twoUnits.publicNames.drop 24)).addressByIndex
      (Bytes.ofText "g")).answer = .ok 0x200 := by decide +kernel
  have hfirst : ((twoSets.withRanges (twoSets.addressRanges.take 48)).unitForAddress
      0x108).answer = .ok 0 := by decide +kernel
  have hlacking : ((twoSets.withRanges (twoSets.addressRanges.take 48)).unitForAddress
      0x208).answer = .error .notFound := by decide +kernel
  have hsecond : ((twoSets.withRanges (twoSets.addressRanges.drop 48)).unitForAddress
      0x208).answer = .ok 43 := by decide +kernel
  exact ⟨(lookups_in_joined_indexes twoUnits _ [1]).1 _ _ hf,
    ((lookups_in_joined_indexes twoUnits _ _).2.1 _ hg).trans hbehind,
    ((lookups_in_joined_indexes twoSets _ [1]).2.2 rfl).1 _ _ hfirst,
    (((lookups_in_joined_indexes twoSets _ _).2.2 rfl).2 _ hlacking).trans hsecond⟩

end Dwarf.Sections

end Symbolizer
