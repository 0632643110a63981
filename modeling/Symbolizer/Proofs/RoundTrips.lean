import Symbolizer.Proofs.CallerAttribution
import Symbolizer.Proofs.UnitPlaces

/-! # What is drawn is found again

An image answers for each of its units as the blueprint says, at any address and however
functions, rows and units overlap: whatever comes first in the blueprint is found. Lines are
those of the line program, functions those of the entries, and units those of the index of
addresses or, where that is silent, of the hulls that the units state. The units themselves
lie one behind the other, at the offsets that are handed out with the image.
-/

namespace Symbolizer

open Dwarf

/-! ## Lines -/

/-- Code of one line: the addresses from `first` up to `limit`. -/
structure LineSpan where
  first : Nat
  limit : Nat
  line : UInt32
  deriving DecidableEq, Repr

def LineSpan.Covers (span : LineSpan) (address : Nat) : Prop :=
  span.first ≤ address ∧ address < span.limit

instance (span : LineSpan) (address : Nat) : Decidable (span.Covers address) := instDecidableAnd

namespace FunctionBlueprint

/-- Rows of code of a length from an address on, each with the code up to the next row or, for the
last one, up to the end. -/
def spansFrom (low : Nat) (length : UInt64) (rows : List RowBlueprint) : List LineSpan :=
  rows.zipWith (fun row limit => ⟨low + row.offset.toNat, low + limit.toNat, row.line⟩)
    ((rows.map RowBlueprint.offset).tail ++ [length])

/-- The code of each row of a function. -/
def lineSpans (f : FunctionBlueprint) : List LineSpan := spansFrom f.low.toNat f.length f.rows

theorem spansFrom_cons (low : Nat) (length : UInt64) (row : RowBlueprint)
    (rest : List RowBlueprint) : spansFrom low length (row :: rest) =
      ⟨low + row.offset.toNat, low + (rest.head?.map (·.offset.toNat)).getD length.toNat,
        row.line⟩ :: spansFrom low length rest := by
  cases rest <;> rfl

theorem lineAmong_eq_find? (low : Nat) (length : UInt64) (address : Nat)
    (rows : List RowBlueprint) : lineAmong low length.toNat address rows =
      ((spansFrom low length rows).find? (·.Covers address)).map LineSpan.line := by
  induction rows with
  | nil => rfl
  | cons row rest ih =>
      rw [lineAmong, ih, spansFrom_cons, List.find?_cons]
      by_cases hcovers : low + row.offset.toNat ≤ address ∧
          address < low + (rest.head?.map (·.offset.toNat)).getD length.toNat
      · simp [LineSpan.Covers, hcovers]
      · simp only [LineSpan.Covers, hcovers, if_false, decide_false]

/-- A function has the line of its first row whose code the address is in. -/
theorem lineAt?_eq_find? (f : FunctionBlueprint) (address : Address) :
    f.lineAt? address = (f.lineSpans.find? (·.Covers address.toNat)).map LineSpan.line :=
  lineAmong_eq_find? _ _ _ _

end FunctionBlueprint

/-- In an image of functions whose rows are in order, the line program of a unit gives for each
address the line of the first row, function by function, whose code the address is in. -/
theorem lineForAddress_of_assemble {blueprint : Blueprint} {assembled : AssembledImage}
    (hassemble : blueprint.assemble = .ok assembled) (hfits : blueprint.Fits)
    (hnamed : ∀ unit ∈ blueprint.units, unit.Named)
    (hcharted : ∀ unit ∈ blueprint.units, ∀ f ∈ unit.functions, f.Charted)
    {i : Nat} {unit : UnitBlueprint} (hunit : blueprint.units[i]? = some unit)
    (hentries : unit.functions ≠ [] ∨ unit.variableNames ≠ []) :
    ∃ offset, assembled.lineOffsets[i]? = some offset ∧ ∀ address,
      (assembled.image.sections.lineForAddress address offset).answer =
        ((unit.functions.flatMap (·.lineSpans)).find? (·.Covers address.toNat)).elim
          (.error .notFound) fun span => .ok span.line := by
  obtain ⟨place, hplace, -, hoffset⟩ := Blueprint.exists_place_of_assemble hassemble hunit
  have hmem := List.mem_of_getElem? hplace
  have hown := List.mem_of_getElem? hunit
  have hhas : unit.hasEntries = true := by
    simpa [UnitBlueprint.hasEntries] using hentries
  refine ⟨place.lines, hoffset, fun address => ?_⟩
  have hfound : (unit.functions.findSome? (·.lineAt? address)) =
      ((unit.functions.flatMap (·.lineSpans)).find? (·.Covers address.toNat)).map
        LineSpan.line := by
    simp only [FunctionBlueprint.lineAt?_eq_find?]
    rw [List.find?_flatMap, List.map_findSome?]
    rfl
  rw [Blueprint.image_of_assemble hassemble]
  refine ((hfits.writtenIn hmem).lineForAddress (hnamed unit hown) hhas (hcharted unit hown)
    address).trans ?_
  rw [hfound]
  cases (unit.functions.flatMap (·.lineSpans)).find? (·.Covers address.toNat) <;> rfl

/-- Units with nothing in them, with functions that overlap and leave gaps, and with a function
in such a gap. -/
def crossedUnits : Blueprint where
  units := [
    ⟨Bytes.ofText "none", [], []⟩,
    ⟨Bytes.ofText "a", [⟨Bytes.ofText "near", 0x1000, 0x200,
        [⟨0, 10⟩, ⟨4, 3000000000⟩, ⟨4, 7⟩, ⟨0x100, 12⟩], false, .rangeList⟩,
      ⟨Bytes.ofText "over", 0x1100, 0x200, [⟨0, 20⟩], true, .outOfLine⟩,
      ⟨Bytes.ofText "far", 0x3000, 0x10, [], false, .separatelyDeclared⟩], [Bytes.ofText "v"]⟩,
    ⟨Bytes.ofText "b", [⟨Bytes.ofText "between", 0x2000, 0x10, [⟨0, 30⟩], false,
        .contiguous⟩], []⟩]
  symbols := []
  addressIndex := true
  danglingNames := []

theorem crossedUnits_fits : crossedUnits.Fits :=
  .of_length_lt (by intro kind; cases kind <;> decide +kernel)

theorem crossedUnits_assembles : ∃ assembled, crossedUnits.assemble = .ok assembled :=
  Blueprint.exists_assemble crossedUnits_fits.sections (by decide) (by decide) (by decide)
    (by decide)

/-- Of rows at one offset only the last one has code, and code of two functions has the line of
the first one. -/
theorem crossedUnits_lineForAddress : ∃ assembled offset,
    crossedUnits.assemble = .ok assembled ∧ assembled.lineOffsets[1]? = some offset ∧
    (assembled.image.sections.lineForAddress 0x1004 offset).answer = .ok 7 ∧
    (assembled.image.sections.lineForAddress 0x1180 offset).answer = .ok 12 ∧
    (assembled.image.sections.lineForAddress 0x2000 offset).answer = .error .notFound := by
  obtain ⟨assembled, hassemble⟩ := crossedUnits_assembles
  obtain ⟨offset, hoffset, hline⟩ := lineForAddress_of_assemble hassemble crossedUnits_fits
    (by decide) (by decide) (rfl : crossedUnits.units[1]? = some _) (.inl (by decide))
  exact ⟨assembled, offset, hassemble, hoffset, (hline 0x1004).trans (by decide),
    (hline 0x1180).trans (by decide), (hline 0x2000).trans (by decide)⟩

/-- Short sections are not enough. Where the length of the line program is one that the format
keeps for itself, not even the line of the first row is found. -/
theorem reservedImage_lineForAddress : ∃ assembled offset,
    reservedImage.assemble = .ok assembled ∧ reservedImage.Short ∧
    (∀ unit ∈ reservedImage.units, unit.Named) ∧
    (∀ unit ∈ reservedImage.units, ∀ f ∈ unit.functions, f.Charted) ∧
    (∃ unit, reservedImage.units[0]? = some unit ∧ rowedFunction ∈ unit.functions) ∧
    rowedFunction.lineSpans = [⟨0x800000001000, 0x800000001020, 7⟩] ∧
    assembled.lineOffsets[0]? = some offset ∧
    (assembled.image.sections.lineForAddress 0x800000001000 offset).answer =
      .error (.format .reservedLength) := by
  obtain ⟨assembled, hassemble⟩ := reservedImage_assembles
  obtain ⟨-, hoffsets⟩ := Blueprint.offsets_of_assemble hassemble
  refine ⟨assembled, 0, hassemble, reservedImage_short, reservedImage_named,
    reservedImage_charted, ⟨_, rfl, List.mem_singleton_self _⟩, by decide, ?_, ?_⟩
  · rw [hoffsets]
    rfl
  · rw [Blueprint.image_of_assemble hassemble]
    exact reservedImage_liesIn.lineForAddress_reserved rfl reservedImage_lines _

/-! ## Functions -/

/-- In an image of functions that do not wrap around the address space, the entries of a unit give
for each address the first function that has code there, among those whose code is not listed. -/
theorem functionForAddress_of_assemble {blueprint : Blueprint} {assembled : AssembledImage}
    (hassemble : blueprint.assemble = .ok assembled) (hfits : blueprint.Fits)
    (hnamed : ∀ unit ∈ blueprint.units, unit.Named)
    (hbounded : ∀ unit ∈ blueprint.units, ∀ f ∈ unit.functions, f.Bounded)
    {i : Nat} {unit : UnitBlueprint} (hunit : blueprint.units[i]? = some unit) :
    ∃ offset, assembled.unitOffsets[i]? = some offset ∧ ∀ address,
      (assembled.image.sections.functionForAddress address offset).answer =
        (unit.functions.find? fun f => f.shape ≠ .rangeList ∧ f.Covers address.toNat).elim
          (.error .notFound) fun f => .ok ⟨f.name, f.low⟩ := by
  obtain ⟨place, hplace, hoffset, -⟩ := Blueprint.exists_place_of_assemble hassemble hunit
  have hmem := List.mem_of_getElem? hplace
  have hown := List.mem_of_getElem? hunit
  refine ⟨place.info, hoffset, fun address => ?_⟩
  rw [Blueprint.image_of_assemble hassemble]
  refine ((hfits.writtenIn hmem).functionForAddress (hnamed unit hown) (hbounded unit hown)
    address).trans ?_
  cases unit.functions.find? fun f => f.shape ≠ .rangeList ∧ f.Covers address.toNat <;> rfl

/-- A function whose code is listed hides none of those behind it, and is not found itself. -/
theorem crossedUnits_functionForAddress : ∃ assembled offset,
    crossedUnits.assemble = .ok assembled ∧ assembled.unitOffsets[1]? = some offset ∧
    (assembled.image.sections.functionForAddress 0x1180 offset).answer =
      .ok ⟨Bytes.ofText "over", 0x1100⟩ ∧
    (assembled.image.sections.functionForAddress 0x1080 offset).answer = .error .notFound := by
  obtain ⟨assembled, hassemble⟩ := crossedUnits_assembles
  obtain ⟨offset, hoffset, hfunction⟩ := functionForAddress_of_assemble hassemble
    crossedUnits_fits (by decide) (by decide) (rfl : crossedUnits.units[1]? = some _)
  exact ⟨assembled, offset, hassemble, hoffset, (hfunction 0x1180).trans (by decide),
    (hfunction 0x1080).trans (by decide)⟩

/-- Short sections are not enough. Where the length of the unit is one that the format keeps for
itself, its function is not found. -/
theorem reservedImage_functionForAddress : ∃ assembled offset,
    reservedImage.assemble = .ok assembled ∧ reservedImage.Short ∧
    (∀ unit ∈ reservedImage.units, unit.Named) ∧
    (∀ unit ∈ reservedImage.units, ∀ f ∈ unit.functions, f.Bounded) ∧
    (∃ unit, reservedImage.units[0]? = some unit ∧ unit.functions = [rowedFunction]) ∧
    rowedFunction.shape ≠ .rangeList ∧ rowedFunction.Covers (0x800000001000 : Address).toNat ∧
    assembled.unitOffsets[0]? = some offset ∧
    (assembled.image.sections.functionForAddress 0x800000001000 offset).answer =
      .error (.format .reservedLength) := by
  obtain ⟨assembled, hassemble⟩ := reservedImage_assembles
  obtain ⟨hoffsets, -⟩ := Blueprint.offsets_of_assemble hassemble
  refine ⟨assembled, 0, hassemble, reservedImage_short, reservedImage_named,
    fun unit hunit f hf => (reservedImage_kept unit hunit f hf).2, ⟨_, rfl, rfl⟩,
    by decide, by decide, ?_, ?_⟩
  · rw [hoffsets]
    rfl
  · rw [Blueprint.image_of_assemble hassemble]
    exact reservedImage_liesIn.functionForAddress_reserved reservedImage_info _

/-! ## Units -/

/-- In an image of functions that were kept and do not wrap around the address space, an address
leads to the unit that the blueprint tells, and to the same one without an index of addresses if
no address is spanned by two units. -/
theorem unitForAddress_of_assemble {blueprint : Blueprint} {assembled : AssembledImage}
    (hassemble : blueprint.assemble = .ok assembled) (hfits : blueprint.Fits)
    (hnamed : ∀ unit ∈ blueprint.units, unit.Named)
    (hkept : ∀ unit ∈ blueprint.units, ∀ f ∈ unit.functions,
      f.low.toNat < 2 ^ 64 - 2 ∧ f.Bounded) :
    (∀ address, match blueprint.unitFor? address.toNat with
      | some i => ∃ offset, assembled.unitOffsets[i]? = some offset ∧
          (assembled.image.sections.unitForAddress address).answer = .ok offset
      | none => (assembled.image.sections.unitForAddress address).answer = .error .notFound) ∧
    (blueprint.UnitsApart → ∃ unindexed, blueprint.withoutIndex.assemble = .ok unindexed ∧
      ∀ address, (unindexed.image.sections.unitForAddress address).answer =
        (assembled.image.sections.unitForAddress address).answer) := by
  have hanswer (address : Address) :
      (assembled.image.sections.unitForAddress address).answer =
        (((blueprint.unitFor? address.toNat).bind (blueprint.placedUnits[·]?)).map (·.1.info)).elim
          (.error .notFound) .ok := by
    rw [Blueprint.image_of_assemble hassemble]
    exact hfits.unitForAddress_eq hnamed hkept address
  constructor
  · intro address
    rw [hanswer]
    cases hposition : blueprint.unitFor? address.toNat with
    | none => rfl
    | some i =>
        have hi := Blueprint.lt_of_unitFor? hposition
        obtain ⟨place, hplace, hoffset, -⟩ :=
          Blueprint.exists_place_of_assemble hassemble (List.getElem?_eq_getElem hi)
        refine ⟨place.info, hoffset, ?_⟩
        rw [Option.bind_some, hplace]
        rfl
  · intro hapart
    obtain ⟨unindexed, hunindexed⟩ := Blueprint.exists_assemble_withoutIndex hassemble
    refine ⟨unindexed, hunindexed, fun address => ?_⟩
    -- What is told without an index is what the spans tell, and so is the rest if they are apart.
    rw [Blueprint.image_of_assemble hunindexed, hanswer, hapart.unitFor?_eq,
      ← Blueprint.unitFor?_withoutIndex]
    exact hfits.withoutIndex.unitForAddress_eq hnamed hkept address

/-- An address in a gap leads to the unit with code there, if there is one, or else to the unit
around the gap; units that follow one another have no such gaps. -/
theorem crossedUnits_instanceUnits_unitForAddress :
    (∃ assembled, crossedUnits.assemble = .ok assembled ∧
      (∃ offset, assembled.unitOffsets[2]? = some offset ∧
        (assembled.image.sections.unitForAddress 0x2008).answer = .ok offset) ∧
      (∃ offset, assembled.unitOffsets[1]? = some offset ∧
        (assembled.image.sections.unitForAddress 0x2800).answer = .ok offset) ∧
      (assembled.image.sections.unitForAddress 0x4000).answer = .error .notFound) ∧
    ∃ assembled unindexed, instanceUnits.assemble = .ok assembled ∧
      instanceUnits.withoutIndex.assemble = .ok unindexed ∧
      ∀ address, (unindexed.image.sections.unitForAddress address).answer =
        (assembled.image.sections.unitForAddress address).answer := by
  constructor
  · obtain ⟨assembled, hassemble⟩ := crossedUnits_assembles
    have hunit :=
      (unitForAddress_of_assemble hassemble crossedUnits_fits (by decide) (by decide)).1
    have hcode := hunit 0x2008
    have haround := hunit 0x2800
    have hbehind := hunit 0x4000
    rw [(by decide : crossedUnits.unitFor? (0x2008 : Address).toNat = some 2)] at hcode
    rw [(by decide : crossedUnits.unitFor? (0x2800 : Address).toNat = some 1)] at haround
    rw [(by decide : crossedUnits.unitFor? (0x4000 : Address).toNat = none)] at hbehind
    exact ⟨assembled, hassemble, hcode, haround, hbehind⟩
  · have hfits : instanceUnits.Fits := .of_length_lt (by intro kind; cases kind <;> decide +kernel)
    obtain ⟨assembled, hassemble⟩ := Blueprint.exists_assemble hfits.sections (by decide)
      (by decide) (by decide) (by decide)
    obtain ⟨unindexed, hunindexed, hsame⟩ :=
      (unitForAddress_of_assemble hassemble hfits (by decide) (by decide)).2
        (.of_ascending (by decide))
    exact ⟨assembled, unindexed, hassemble, hunindexed, hsame⟩

/-- Short sections are not enough. Where the length of the unit is one that the format keeps for
itself, an address that it does not span is not told to lead nowhere. -/
theorem reservedImage_unitForAddress : ∃ assembled,
    reservedImage.assemble = .ok assembled ∧ reservedImage.Short ∧
    (∀ unit ∈ reservedImage.units, unit.Named) ∧
    (∀ unit ∈ reservedImage.units, ∀ f ∈ unit.functions,
      f.low.toNat < 2 ^ 64 - 2 ∧ f.Bounded) ∧
    reservedImage.unitFor? (0x1000 : Address).toNat = none ∧
    (assembled.image.sections.unitForAddress 0x1000).answer =
      .error (.format .reservedLength) := by
  obtain ⟨assembled, hassemble⟩ := reservedImage_assembles
  refine ⟨assembled, hassemble, reservedImage_short, reservedImage_named, reservedImage_kept, rfl,
    ?_⟩
  rw [Blueprint.image_of_assemble hassemble]
  refine reservedImage_short.unitForAddress_reserved rfl reservedImage_info reservedImage_kept ?_
  exact List.forall_mem_singleton.mpr (by decide : ¬∃ f ∈ [rowedFunction], f.Covers 0x1000)

/-! ## Places -/

/-- A blueprint whose rows are in order in code that does not wrap around the address space, and
whose lists of ranges are not empty and not too many, is assembled. The headers of its units follow
one another from the start of their section to its end, at the offsets that are handed out with the
image, and each of these leads to the file of its unit. A unit without functions and variables has
no line program, though an offset is handed out for one. -/
theorem places_of_assemble {blueprint : Blueprint} (hfits : blueprint.Fits)
    (hlists : blueprint.rangeListsSize < 2 ^ 32)
    (hnamed : ∀ unit ∈ blueprint.units, unit.Named)
    (hordered : ∀ unit ∈ blueprint.units, ∀ f ∈ unit.functions, f.Ordered)
    (hranges : ∀ unit ∈ blueprint.units, ∀ f ∈ unit.functions, f.shape = .rangeList →
      f.length ≠ 0) :
    ∃ assembled, blueprint.assemble = .ok assembled ∧
      (∃ headers, UnitHeader.readAll assembled.image.sections.info = ⟨headers, none⟩ ∧
        headers.map UnitHeader.offset = assembled.unitOffsets ∧
        UnitHeader.Tile 0 headers assembled.image.sections.info.length) ∧
      assembled.unitOffsets.length = blueprint.units.length ∧
      ∀ (i : Nat) (unit : UnitBlueprint), blueprint.units[i]? = some unit →
        ∃ offset lines, assembled.unitOffsets[i]? = some offset ∧
          assembled.lineOffsets[i]? = some lines ∧
          (assembled.image.sections.fileForUnit offset).answer =
            if unit.functions ≠ [] ∨ unit.variableNames ≠ [] then .ok ⟨unit.file, lines⟩
            else .error .missingLineProgram := by
  obtain ⟨assembled, hassemble⟩ :=
    Blueprint.exists_assemble hfits.sections hlists hnamed hordered hranges
  obtain ⟨hoffsets, -⟩ := Blueprint.offsets_of_assemble hassemble
  have hread := hfits.readAll_info
  have hfault : (UnitHeader.readAll blueprint.sections.info).fault = none := by rw [hread]
  have htile := UnitHeader.tile_readAll hfault
  rw [hread] at htile
  refine ⟨assembled, hassemble, ?_, ?_, fun i unit hunit => ?_⟩
  · rw [Blueprint.image_of_assemble hassemble, hoffsets]
    exact ⟨_, hread, List.map_map, htile⟩
  · rw [hoffsets, List.length_map, ← blueprint.map_snd_placedUnits, List.length_map]
  · obtain ⟨place, hplace, hoffset, hlines⟩ := Blueprint.exists_place_of_assemble hassemble hunit
    have hown := List.mem_of_getElem? hunit
    have hhas : unit.hasEntries = true ↔ unit.functions ≠ [] ∨ unit.variableNames ≠ [] := by
      simp [UnitBlueprint.hasEntries]
    refine ⟨place.info, place.lines, hoffset, hlines, ?_⟩
    rw [Blueprint.image_of_assemble hassemble]
    refine ((hfits.writtenIn (List.mem_of_getElem? hplace)).fileForUnit (hnamed unit hown)
      fun f hf => (hordered unit hown f hf).bounded).trans ?_
    simp only [hhas]

/-- The unit with nothing in it takes up a place, but has no line program. -/
theorem crossedUnits_places : ∃ assembled empty offset lines,
    crossedUnits.assemble = .ok assembled ∧ assembled.unitOffsets.length = 3 ∧
    assembled.unitOffsets[0]? = some empty ∧
    (assembled.image.sections.fileForUnit empty).answer = .error .missingLineProgram ∧
    assembled.unitOffsets[1]? = some offset ∧ assembled.lineOffsets[1]? = some lines ∧
    (assembled.image.sections.fileForUnit offset).answer = .ok ⟨Bytes.ofText "a", lines⟩ := by
  obtain ⟨assembled, hassemble, -, hlength, hfile⟩ := places_of_assemble crossedUnits_fits
    (by decide) (by decide) (by decide) (by decide)
  obtain ⟨empty, _, hempty, -, hmissing⟩ := hfile 0 _ rfl
  obtain ⟨offset, lines, hoffset, hlines, hfound⟩ := hfile 1 _ rfl
  exact ⟨assembled, empty, offset, lines, hassemble, hlength, hempty, hmissing, hoffset, hlines,
    hfound⟩

/-- Short sections are not enough. Where the length of the unit is one that the format keeps for
itself, the walk over the headers does not meet it, and its file cannot be asked for. -/
theorem reservedBareImage_places : ∃ assembled,
    reservedBareImage.assemble = .ok assembled ∧ reservedBareImage.Short ∧
    reservedBareImage.rangeListsSize < 2 ^ 32 ∧
    (∀ unit ∈ reservedBareImage.units, unit.Named) ∧
    (∀ unit ∈ reservedBareImage.units, unit.functions = [] ∧ unit.variableNames = []) ∧
    reservedBareImage.units.length = 1 ∧ assembled.unitOffsets = [0] ∧
    UnitHeader.readAll assembled.image.sections.info = ⟨[], some .reservedLength⟩ ∧
    (assembled.image.sections.fileForUnit 0).answer = .error (.format .reservedLength) := by
  obtain ⟨assembled, hassemble⟩ := reservedBareImage_assembles
  obtain ⟨hoffsets, -⟩ := Blueprint.offsets_of_assemble hassemble
  refine ⟨assembled, hassemble, reservedBareImage_short, Nat.two_pow_pos 32,
    reservedBareImage_named, List.forall_mem_singleton.mpr ⟨rfl, rfl⟩, rfl, hoffsets, ?_⟩
  rw [Blueprint.image_of_assemble hassemble]
  exact ⟨reservedBareImage_short.readAll_info_reserved rfl reservedBareImage_info,
    reservedBareImage_liesIn.fileForUnit_reserved reservedBareImage_info⟩

end Symbolizer
