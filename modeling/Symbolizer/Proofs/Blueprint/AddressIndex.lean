import Mathlib.Data.List.Find
import Mathlib.Data.List.Pairwise
import Symbolizer.Proofs.Blueprint.Units
import Symbolizer.Proofs.UnitScan

/-! # The index of addresses of blueprints

A set is read back as the ranges of the functions of its unit. Units that are not in
the index still say what their functions span, so an address in a span that no other
unit shares leads to its unit either way.
-/

namespace Symbolizer

open Dwarf

namespace Dwarf.AddressIndex

/-- The bytes of a tuple, given by its first address and its length. -/
def tuple (bounds : Address × UInt64) : Bytes :=
  Bytes.ofNat 8 bounds.1.toNat ++ Bytes.ofNat 8 bounds.2.toNat

/-- What a tuple says, unless it is the pair of zeros. -/
def indexedRange? (unit : Nat) (bounds : Address × UInt64) : Option IndexedRange :=
  if bounds.1 = 0 ∧ bounds.2 = 0 then none
  else some ⟨unit, bounds.1, bounds.1 + bounds.2⟩

theorem reads_tuple {unit : Nat} {tuples : Bytes} {bounds : Address × UInt64}
    (hkept : bounds.1.toNat < 2 ^ 64 - 2) (hbounded : bounds.1.toNat + bounds.2.toNat < 2 ^ 64) :
    (Set.readTuple ⟨unit, .eight, tuples⟩).Reads (tuple bounds) (indexedRange? unit bounds) := by
  obtain ⟨first, length⟩ := bounds
  apply (Reader.Reads.address first).bind
  apply (Reader.Reads.address length).bind_nil
  have htombstone : AddressSize.eight.isTombstone first = false :=
    decide_eq_false (Nat.not_le.mpr hkept)
  have hadd : AddressSize.eight.add first length = .ok (first + length) := if_pos hbounded
  rw [indexedRange?]
  by_cases hzero : first = 0 ∧ length = 0
  · rw [if_pos hzero, if_pos hzero]
    exact Reader.Reads.pure _
  · rw [if_neg hzero, if_neg hzero, htombstone, hadd]
    exact Reader.Reads.pure _

theorem length_flatMap_tuple (bounds : List (Address × UInt64)) :
    (bounds.flatMap tuple).length = bounds.length * 16 := by
  induction bounds with
  | nil => rfl
  | cons first rest ih =>
      rw [List.flatMap_cons, List.length_append, ih, tuple, List.length_append, Bytes.ofNat_length,
        Bytes.ofNat_length, List.length_cons]
      omega

/-- Tuples of code that was kept and does not wrap are all read. -/
theorem ranges_eq {unit : Nat} {bounds : List (Address × UInt64)}
    (h : ∀ b ∈ bounds, b.1.toNat < 2 ^ 64 - 2 ∧ b.1.toNat + b.2.toNat < 2 ^ 64) :
    (Set.ranges ⟨unit, .eight, bounds.flatMap tuple⟩) =
      ⟨bounds.filterMap (indexedRange? unit), none⟩ := by
  have hwhole : (bounds.flatMap tuple).take ((bounds.flatMap tuple).length / 16 * 16) =
      bounds.flatMap tuple := by
    rw [length_flatMap_tuple, Nat.mul_div_cancel _ (by decide), ← length_flatMap_tuple,
      List.take_length]
  have hall : Decoded.Unfolds
      (fun _ => some <$> Set.readTuple ⟨unit, .eight, bounds.flatMap tuple⟩) 0
      (bounds.flatMap tuple) (bounds.map (indexedRange? unit)) :=
    Decoded.Unfolds.flatMap (fun b hb => (reads_tuple (h b hb).1 (h b hb).2).map some)
      fun _ _ => List.cons_ne_nil _ _
  change (Decoded.unfold _ 0 (List.take ((bounds.flatMap tuple).length / 16 * 16) _)).filterMap
    id = _
  rw [hwhole, hall.eq, Decoded.filterMap, List.filterMap_map]
  rfl

end Dwarf.AddressIndex

open AddressIndex (tuple indexedRange?)

namespace UnitBlueprint

variable {unit : UnitBlueprint}

/-- The tuples of the unit; the last one is the pair of zeros. -/
def addressTuples (unit : UnitBlueprint) : List (Address × UInt64) :=
  unit.functions.map (fun f => (f.low, f.length)) ++ [(0, 0)]

theorem addressIndexSet_eq (unit : UnitBlueprint) (offset : Nat) : unit.addressIndexSet offset =
    Bytes.sized (Bytes.ofNat 2 2 ++ (Bytes.ofNat 4 offset ++ ([8] ++ ([0] ++
      (List.replicate 4 0 ++ unit.addressTuples.flatMap tuple))))) := by
  rw [addressIndexSet, addressTuples, List.flatMap_append, List.flatMap_map]
  simp only [List.append_assoc]
  rfl

/-- A set is read back whole. -/
theorem reads_addressIndexSet {offset : Nat} (hoffset : offset < 2 ^ 32)
    (hlength : (unit.addressIndexSet offset).length < 2 ^ 32) :
    AddressIndex.Set.read.Reads (unit.addressIndexSet offset)
      ⟨offset, .eight, unit.addressTuples.flatMap tuple⟩ := by
  rw [addressIndexSet_eq] at hlength ⊢
  have hversion : (Reader.word 2).Reads (Bytes.ofNat 2 2) 2 := Reader.Reads.word (by decide)
  have hunit : Format.dwarf32.offset.Reads (Bytes.ofNat 4 offset) offset :=
    Reader.Reads.offset hoffset
  have hsegment : Reader.segmentSize.Reads [0] () := (Reader.Reads.byte 0).bind_nil (.pure _)
  have hpadding : (Reader.skip (AddressIndex.padding .dwarf32 .eight)).Reads
      (List.replicate 4 0) () := Reader.Reads.skip (List.replicate 4 0)
  refine Reader.Reads.sized ?_ (?_ : _ = Except.ok (_, []))
  -- The length is twelve more than a multiple of sixteen, as only too long reserved ones are.
  · simp only [Bytes.sized, List.length_append, Bytes.ofNat_length, List.length_singleton,
      List.length_replicate, AddressIndex.length_flatMap_tuple,
      Reader.plainLengthBound] at hlength ⊢
    omega
  · rw [hversion.bind_append, if_neg (by decide)]
    change (Format.dwarf32.offset >>= _) _ = _
    rw [hunit.bind_append, Reader.Reads.addressSize.bind_append, hsegment.bind_append,
      hpadding.bind_append]
    rfl

/-- The address lies between the lowest start and the highest end of the functions. -/
def Spans (unit : UnitBlueprint) (address : Nat) : Prop :=
  (∃ f ∈ unit.functions, f.low.toNat ≤ address) ∧
    ∃ f ∈ unit.functions, address < f.low.toNat + f.length.toNat

instance (unit : UnitBlueprint) (address : Nat) : Decidable (unit.Spans address) :=
  instDecidableAnd

/-- Some function of the unit has its code at the address. -/
def HasCodeAt (unit : UnitBlueprint) (address : Nat) : Prop :=
  ∃ f ∈ unit.functions, f.Covers address

instance (unit : UnitBlueprint) (address : Nat) : Decidable (unit.HasCodeAt address) :=
  inferInstanceAs (Decidable (∃ f ∈ unit.functions, f.Covers address))

theorem HasCodeAt.spans {address : Nat} (h : unit.HasCodeAt address) : unit.Spans address := by
  obtain ⟨f, hf, hfrom, hto⟩ := h
  exact ⟨⟨f, hf, hfrom⟩, f, hf, hto⟩

theorem indexedRange_of_mem {offset : Nat} {indexed : IndexedRange}
    (h : indexed ∈ unit.addressTuples.filterMap (indexedRange? offset)) :
    indexed.unit = offset ∧
      ∃ f ∈ unit.functions, indexed.range = ⟨f.low, f.low + f.length⟩ := by
  obtain ⟨bounds, hbounds, heq⟩ := List.mem_filterMap.mp h
  rw [indexedRange?] at heq
  split at heq
  · cases heq
  · rename_i hzero
    cases heq
    rcases List.mem_append.mp hbounds with hbounds | hbounds
    · obtain ⟨f, hf, rfl⟩ := List.mem_map.mp hbounds
      exact ⟨rfl, f, hf, rfl⟩
    · rw [List.mem_singleton.mp hbounds] at hzero
      exact absurd ⟨rfl, rfl⟩ hzero

/-- The set of the unit leads to the unit from the code of its functions, and from nowhere else. -/
theorem findSome?_addressTuples (hbounded : ∀ f ∈ unit.functions, f.Bounded) (offset : Nat)
    (address : Address) :
    ((unit.addressTuples.filterMap (indexedRange? offset)).findSome? fun indexed =>
        if indexed.range.contains address then some indexed.unit else none) =
      if unit.HasCodeAt address.toNat then some offset else none := by
  split
  · rename_i hcode
    obtain ⟨f, hf, hcovers⟩ := hcode
    have hcontains := (contains_range_iff f.low f.length address (hbounded f hf)).mpr hcovers
    refine Lookup.findSome?_eq_some_of_agree
      ⟨⟨offset, f.low, f.low + f.length⟩, List.mem_filterMap.mpr ⟨(f.low, f.length),
        List.mem_append_left _ (List.mem_map_of_mem hf), ?_⟩, if_pos hcontains⟩ ?_
    -- Code at an address has a length, so its tuple is not the pair of zeros.
    · rw [indexedRange?, if_neg]
      rintro ⟨-, hlength⟩
      have hempty : f.length.toNat = 0 := congrArg UInt64.toNat hlength
      have hend := hcovers.2
      have hlow := hcovers.1
      omega
    · intro indexed hindexed found hfound
      rw [Option.ite_none_right_eq_some] at hfound
      rw [← Option.some.inj hfound.2]
      exact (indexedRange_of_mem hindexed).1
  · rename_i hcode
    refine List.findSome?_eq_none_iff.mpr fun indexed hindexed => if_neg fun hcontains => hcode ?_
    obtain ⟨-, f, hf, hrange⟩ := indexedRange_of_mem hindexed
    rw [hrange] at hcontains
    exact ⟨f, hf, (contains_range_iff f.low f.length address (hbounded f hf)).mp hcontains⟩

/-- The hull that the first entry states is the span of the functions. -/
theorem any_hull?_iff (hbounded : ∀ f ∈ unit.functions, f.Bounded) (address : Address) :
    (unit.hull?.map fun hull => AddressRange.mk hull.1 (hull.1 + UInt64.ofNat hull.2)).any
      (·.contains address) = true ↔ unit.Spans address.toNat := by
  by_cases hnil : unit.functions = []
  · simp only [hull?, Spans, hnil, List.not_mem_nil, false_and, exists_false, iff_false]
    exact Bool.false_ne_true
  · obtain ⟨low, hlow⟩ := Option.isSome_iff_exists.mp
      (List.isSome_min?_of_ne_nil (mt List.map_eq_nil_iff.mp hnil) :
        (unit.functions.map (·.low.toNat)).min?.isSome)
    obtain ⟨high, hhigh⟩ := Option.isSome_iff_exists.mp
      (List.isSome_max?_of_ne_nil (mt List.map_eq_nil_iff.mp hnil) :
        (unit.functions.map fun f => f.low.toNat + f.length.toNat).max?.isSome)
    have hhull : unit.hull? = some (UInt64.ofNat low, high - low) := by
      rw [hull?, hlow, hhigh]
      rfl
    obtain ⟨hlowMem, hlowLe⟩ := List.min?_eq_some_iff.mp hlow
    obtain ⟨hhighMem, hleHigh⟩ := List.max?_eq_some_iff.mp hhigh
    obtain ⟨first, hfirst, rfl⟩ := List.mem_map.mp hlowMem
    obtain ⟨last, hlast, rfl⟩ := List.mem_map.mp hhighMem
    have hbound : last.low.toNat + last.length.toNat < 2 ^ 64 := hbounded last hlast
    have hle := hlowLe last.low.toNat (List.mem_map_of_mem hlast)
    -- The hull is stated as a start and a size; its end does not wrap since no function's does.
    have hspan : (UInt64.ofNat (last.low.toNat + last.length.toNat - first.low.toNat)).toNat =
        last.low.toNat + last.length.toNat - first.low.toNat := by
      rw [UInt64.toNat_ofNat', Nat.mod_eq_of_lt (by omega)]
    have hcontains := contains_range_iff first.low
      (UInt64.ofNat (last.low.toNat + last.length.toNat - first.low.toNat)) address (by omega)
    rw [hhull, Option.map_some, Option.any_some, UInt64.ofNat_toNat]
    refine hcontains.trans ?_
    rw [hspan]
    constructor
    · rintro ⟨hfrom, hto⟩
      exact ⟨⟨first, hfirst, hfrom⟩, last, hlast, by omega⟩
    · rintro ⟨⟨f, hf, hfrom⟩, g, hg, hto⟩
      have hf := hlowLe f.low.toNat (List.mem_map_of_mem hf)
      have hg := hleHigh (g.low.toNat + g.length.toNat)
        (List.mem_map_of_mem (f := fun f => f.low.toNat + f.length.toNat) hg)
      omega

/-- What the scan makes of the unit. -/
theorem answer_scanStep (hbounded : ∀ f ∈ unit.functions, f.Bounded) (strings : List Bytes)
    (place : UnitPlace) (address : Address) :
    (Sections.scanStep address (unit.compiled strings place)).answer =
      .ok (if unit.Spans address.toNat then some place.info else none) := by
  have hrange := range?_rootDraft unit place.lines unitHeaderSize
  refine (Lookup.answer_bind_of_ok (Lookup.answer_decode_ok hrange) _).trans ?_
  exact congrArg Except.ok (if_congr (any_hull?_iff hbounded address) rfl rfl)

end UnitBlueprint

namespace Blueprint

variable {blueprint : Blueprint}

/-- The units that have a set in the index, if there is one. -/
def indexedUnits (blueprint : Blueprint) : List (UnitPlace × UnitBlueprint) :=
  blueprint.placedUnits.filter fun p => !p.2.functions.isEmpty

/-- What the index of addresses lists, if there is one. -/
def indexedRanges (blueprint : Blueprint) : List IndexedRange :=
  if blueprint.addressIndex then
    blueprint.indexedUnits.flatMap fun p => p.2.addressTuples.filterMap (indexedRange? p.1.info)
  else []

theorem Short.indexedRanges (hshort : blueprint.Short)
    (hkept : ∀ unit ∈ blueprint.units, ∀ f ∈ unit.functions,
      f.low.toNat < 2 ^ 64 - 2 ∧ f.Bounded) :
    blueprint.sections.indexedRanges = ⟨blueprint.indexedRanges, none⟩ := by
  have hlength : blueprint.sections.addressRanges.length < 2 ^ 32 := hshort .addressRanges
  rw [Sections.indexedRanges, Blueprint.indexedRanges]
  by_cases hindex : blueprint.addressIndex = true
  · have hsets : blueprint.sections.addressRanges =
        blueprint.indexedUnits.flatMap fun p => p.2.addressIndexSet p.1.info := by
      rw [Blueprint.sections, if_pos hindex, indexedUnits, ← flatMap_ite_nil]
      rfl
    rw [hsets] at hlength ⊢
    have hall : Decoded.Unfolds (fun _ => some <$> AddressIndex.Set.read) 0
        (blueprint.indexedUnits.flatMap fun p => p.2.addressIndexSet p.1.info)
        (blueprint.indexedUnits.map fun p =>
          ⟨p.1.info, .eight, p.2.addressTuples.flatMap tuple⟩) := by
      refine Decoded.Unfolds.flatMap (fun p hp => ?_) fun _ _ => Bytes.sized_ne_nil _
      -- The set is a part of the section and the unit lies in its own, so both fit their fields.
      have hplace := (hshort.liesIn (List.mem_filter.mp hp).1).info.le
      have hinfo : blueprint.sections.info.length < 2 ^ 32 := hshort .info
      have hset : (p.2.addressIndexSet p.1.info).length ≤
          (blueprint.indexedUnits.flatMap fun p => p.2.addressIndexSet p.1.info).length :=
        length_le_length_flatMap (fun p => p.2.addressIndexSet p.1.info) hp
      exact (UnitBlueprint.reads_addressIndexSet (by omega) (by omega)).map some
    rw [hall.eq, if_pos hindex, Decoded.flatMap]
    refine Decoded.flatMapItems_map_eq fun p hp => AddressIndex.ranges_eq fun bounds hbounds => ?_
    rcases List.mem_append.mp hbounds with hbounds | hbounds
    · obtain ⟨f, hf, rfl⟩ := List.mem_map.mp hbounds
      exact hkept p.2 (mem_of_mem_layOut (List.mem_filter.mp hp).1) f hf
    · rw [List.mem_singleton.mp hbounds]
      decide
  · rw [if_neg hindex, Blueprint.sections, if_neg hindex, Decoded.unfold_nil]
    rfl

/-- Where no two items cover the same, whatever is covered is covered by one item only. -/
theorem eq_of_pairwise_apart {α : Type} (covers : α → Nat → Prop) {items : List α}
    (h : items.Pairwise fun a b => ∀ n, ¬(covers a n ∧ covers b n)) {a b : α} (ha : a ∈ items)
    (hb : b ∈ items) {n : Nat} (hcovers : covers a n) (hother : covers b n) : a = b := by
  by_contra hne
  have : Std.Symm fun a b => ∀ n, ¬(covers a n ∧ covers b n) :=
    ⟨fun _ _ hab n hboth => hab n hboth.symm⟩
  exact h.forall ha hb hne n ⟨hcovers, hother⟩

/-- No address is spanned by two units. -/
def UnitsApart (blueprint : Blueprint) : Prop :=
  blueprint.units.Pairwise fun u v => ∀ address, ¬(u.Spans address ∧ v.Spans address)

/-- Units that follow one another are apart. -/
theorem UnitsApart.of_ascending
    (h : blueprint.units.Pairwise fun u v => ∀ f ∈ u.functions, ∀ g ∈ v.functions,
      f.low.toNat + f.length.toNat ≤ g.low.toNat) : blueprint.UnitsApart := by
  refine h.imp fun hle address hboth => ?_
  obtain ⟨⟨_, f, hf, hend⟩, ⟨g, hg, hlow⟩, _⟩ := hboth
  have := hle f hf g hg
  omega

/-- A unit that spans an address is the only one. -/
theorem UnitsApart.eq_of_spans (hapart : blueprint.UnitsApart) {address : Nat}
    {p q : UnitPlace × UnitBlueprint} (hp : p ∈ blueprint.placedUnits)
    (hq : q ∈ blueprint.placedUnits) (hspans : p.2.Spans address)
    (hother : q.2.Spans address) : p = q := by
  rw [UnitsApart, ← map_snd_placedUnits, List.pairwise_map] at hapart
  exact eq_of_pairwise_apart (fun p : UnitPlace × UnitBlueprint => p.2.Spans) hapart hp hq
    hspans hother

/-- The position of the unit to which an address leads: the first one with code at the address, if
there is an index, or else the first one that spans it. -/
def unitFor? (blueprint : Blueprint) (address : Nat) : Option Nat :=
  (if blueprint.addressIndex then blueprint.units.findIdx? (·.HasCodeAt address) else none).or
    (blueprint.units.findIdx? (·.Spans address))

theorem lt_of_unitFor? {address i : Nat} (h : blueprint.unitFor? address = some i) :
    i < blueprint.units.length := by
  rcases Option.or_eq_some_iff.mp h with hcode | ⟨-, hspan⟩
  · rw [Option.ite_none_right_eq_some] at hcode
    exact (List.findIdx?_eq_some_iff_getElem.mp hcode.2).1
  · exact (List.findIdx?_eq_some_iff_getElem.mp hspan).1

/-- The first placed unit of a kind is the one at the position of the first unit of the kind. -/
theorem find?_placedUnits (p : UnitBlueprint → Prop) [DecidablePred p] :
    (blueprint.placedUnits.find? fun q => p q.2) =
      (blueprint.units.findIdx? fun unit => p unit).bind (blueprint.placedUnits[·]?) := by
  rw [List.find?_eq_bind_findIdx?_getElem?, ← map_snd_placedUnits, List.findIdx?_map]
  rfl

/-- The unit to which an address leads, with its place. -/
theorem bind_unitFor? (address : Nat) :
    (blueprint.unitFor? address).bind (blueprint.placedUnits[·]?) =
      (if blueprint.addressIndex then blueprint.placedUnits.find? (·.2.HasCodeAt address)
        else none).or (blueprint.placedUnits.find? (·.2.Spans address)) := by
  rw [unitFor?, find?_placedUnits (·.HasCodeAt address), find?_placedUnits (·.Spans address)]
  split
  · cases hcode : blueprint.units.findIdx? (·.HasCodeAt address) with
    | none => rfl
    | some i =>
        obtain ⟨hi, -⟩ := List.findIdx?_eq_some_iff_getElem.mp hcode
        rw [← map_snd_placedUnits, List.length_map] at hi
        rw [Option.some_or, Option.bind_some, List.getElem?_eq_getElem hi, Option.some_or]
  · rfl

/-- The index leads to the first unit with code at the address. -/
theorem Short.search_indexedRanges (hshort : blueprint.Short)
    (hkept : ∀ unit ∈ blueprint.units, ∀ f ∈ unit.functions,
      f.low.toNat < 2 ^ 64 - 2 ∧ f.Bounded) (address : Address) :
    (Lookup.search blueprint.sections.indexedRanges fun indexed =>
        pure (if indexed.range.contains address then some indexed.unit else none)).answer =
      .ok ((if blueprint.addressIndex then
        blueprint.placedUnits.find? (·.2.HasCodeAt address.toNat) else none).map (·.1.info)) := by
  rw [hshort.indexedRanges hkept, Lookup.answer_search_of_ok rfl fun _ _ => rfl,
    Blueprint.indexedRanges]
  by_cases hindex : blueprint.addressIndex = true
  · rw [if_pos hindex, if_pos hindex, Lookup.findSome?_flatMap]
    have hunits : (blueprint.indexedUnits.find? fun p => p.2.HasCodeAt address.toNat) =
        blueprint.placedUnits.find? fun p => p.2.HasCodeAt address.toNat := by
      rw [indexedUnits, List.find?_filter]
      refine List.find?_congr fun p _ => decide_eq_decide.mpr ⟨fun h => of_decide_eq_true h.2, ?_⟩
      intro hcode
      have hfunctions : p.2.functions ≠ [] := by
        obtain ⟨f, hf, -⟩ := hcode
        exact List.ne_nil_of_mem hf
      exact ⟨by simpa using hfunctions, decide_eq_true hcode⟩
    rw [← hunits]
    refine congrArg Except.ok (Lookup.findSome?_eq_map_find? fun p hp => ?_)
    have hmem := mem_of_mem_layOut (List.mem_filter.mp hp).1
    exact p.2.findSome?_addressTuples (fun f hf => (hkept p.2 hmem f hf).2) p.1.info address
  · rw [if_neg hindex, if_neg hindex]
    rfl

/-- What the index leads to is found without a look at any unit. -/
theorem Short.unitForAddress_indexed (hshort : blueprint.Short)
    (hkept : ∀ unit ∈ blueprint.units, ∀ f ∈ unit.functions,
      f.low.toNat < 2 ^ 64 - 2 ∧ f.Bounded) (hindex : blueprint.addressIndex = true)
    {address : Address} {p : UnitPlace × UnitBlueprint}
    (hfirst : blueprint.placedUnits.find? (·.2.HasCodeAt address.toNat) = some p) :
    (blueprint.sections.unitForAddress address).answer = .ok p.1.info := by
  have hsearch := hshort.search_indexedRanges hkept address
  rw [if_pos hindex, hfirst] at hsearch
  rw [Sections.unitForAddress, Lookup.answer_bind_of_ok hsearch]
  rfl

/-- An address leads to the unit at the position that the blueprint tells. -/
theorem Fits.unitForAddress_eq (hfits : blueprint.Fits)
    (hnamed : ∀ unit ∈ blueprint.units, unit.Named)
    (hkept : ∀ unit ∈ blueprint.units, ∀ f ∈ unit.functions,
      f.low.toNat < 2 ^ 64 - 2 ∧ f.Bounded) (address : Address) :
    (blueprint.sections.unitForAddress address).answer =
      (((blueprint.unitFor? address.toNat).bind (blueprint.placedUnits[·]?)).map (·.1.info)).elim
        (.error .notFound) .ok := by
  have hbounded : ∀ unit ∈ blueprint.units, ∀ f ∈ unit.functions, f.Bounded :=
    fun unit hunit f hf => (hkept unit hunit f hf).2
  have hscan : (Lookup.search blueprint.sections.units (Sections.scanStep address)).answer =
      .ok ((blueprint.placedUnits.find? (·.2.Spans address.toNat)).map (·.1.info)) := by
    rw [hfits.units_sections hnamed hbounded, ← Lookup.findSome?_eq_map_find? fun _ _ => rfl]
    refine Lookup.answer_search_map fun q hq => ?_
    exact UnitBlueprint.answer_scanStep (hbounded q.2 (mem_of_mem_layOut hq)) _ q.1 address
  have hindex := hfits.sections.search_indexedRanges hkept address
  rw [bind_unitFor?, Sections.unitForAddress, Lookup.answer_bind_of_ok hindex]
  cases (if blueprint.addressIndex then
    blueprint.placedUnits.find? (·.2.HasCodeAt address.toNat) else none) with
  | some p => rfl
  | none =>
      refine (Lookup.answer_bind_of_ok rfl _).trans ?_
      exact Lookup.answer_orNotFound_of_ok hscan

/-- Where units are apart, the index leads to no other unit than the spans do. -/
theorem UnitsApart.unitFor?_eq (hapart : blueprint.UnitsApart) (address : Nat) :
    blueprint.unitFor? address = blueprint.units.findIdx? (·.Spans address) := by
  rw [unitFor?]
  split
  · cases hcode : blueprint.units.findIdx? (·.HasCodeAt address) with
    | none => rfl
    | some i =>
        obtain ⟨hi, hown, -⟩ := List.findIdx?_eq_some_iff_getElem.mp hcode
        have hspans := (of_decide_eq_true hown).spans
        refine (List.findIdx?_eq_some_iff_getElem.mpr ⟨hi, decide_eq_true hspans, ?_⟩).symm
        intro j hj hother
        exact List.pairwise_iff_getElem.mp hapart j i (Nat.lt_trans hj hi) hi hj address
          ⟨of_decide_eq_true hother, hspans⟩
  · rfl

/-- An address that a unit spans leads to the unit, whether or not the index lists it. -/
theorem Fits.unitForAddress (hfits : blueprint.Fits)
    (hnamed : ∀ unit ∈ blueprint.units, unit.Named)
    (hkept : ∀ unit ∈ blueprint.units, ∀ f ∈ unit.functions,
      f.low.toNat < 2 ^ 64 - 2 ∧ f.Bounded)
    (hapart : blueprint.UnitsApart) {p : UnitPlace × UnitBlueprint} (hp : p ∈ blueprint.placedUnits)
    {address : Address} (hspans : p.2.Spans address.toNat) :
    (blueprint.sections.unitForAddress address).answer = .ok p.1.info := by
  rw [hfits.unitForAddress_eq hnamed hkept, hapart.unitFor?_eq, ← find?_placedUnits,
    Lookup.find?_eq_some_of_agree hp hspans fun q hq hother =>
      hapart.eq_of_spans hq hp hother hspans]
  rfl

/-- The blueprint of the same image without an index of addresses. -/
def withoutIndex (blueprint : Blueprint) : Blueprint := { blueprint with addressIndex := false }

theorem unitFor?_withoutIndex (address : Nat) :
    blueprint.withoutIndex.unitFor? address = blueprint.units.findIdx? (·.Spans address) := rfl

theorem Fits.withoutIndex (hfits : blueprint.Fits) : blueprint.withoutIndex.Fits where
  sections := by
    intro kind
    cases kind with
    | addressRanges => exact Nat.two_pow_pos 32
    | abbreviations => exact hfits.sections .abbreviations
    | info => exact hfits.sections .info
    | lines => exact hfits.sections .lines
    | strings => exact hfits.sections .strings
    | publicNames => exact hfits.sections .publicNames
    | publicTypes => exact hfits.sections .publicTypes
  units := hfits.units

/-- What is checked of units does not depend on the index. -/
theorem exists_assemble_withoutIndex {assembled : AssembledImage}
    (h : blueprint.assemble = .ok assembled) :
    ∃ unindexed, blueprint.withoutIndex.assemble = .ok unindexed := by
  obtain ⟨hcheck, hparts, -⟩ := assemble_eq_ok_iff.mp h
  exact ⟨_, assemble_eq_ok_iff.mpr ⟨hcheck, hparts, rfl⟩⟩

end Blueprint

end Symbolizer
