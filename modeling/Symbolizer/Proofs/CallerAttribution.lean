import Symbolizer.Proofs.Blueprint.Functions
import Symbolizer.Proofs.Blueprint.ReservedLengths
import Symbolizer.Proofs.Resolving

/-! # Calls in assembled images

In an image whose functions and units do not overlap, the address behind a call leads
to the function that the call is in. Unit lookup, the rows of the function, its range
and its name agree on this whatever the shape of its entry, with or without an index
of addresses.
-/

namespace Symbolizer

open Dwarf

namespace FunctionBlueprint

variable {f : FunctionBlueprint}

/-- Rows in order tell the line of the last one that the address does not lie before. -/
theorem lineAmong_eq_getLast? {low length address : Nat} (hend : address < low + length)
    {rows : List RowBlueprint}
    (hascending : rows.Pairwise fun first second => first.offset ≤ second.offset) :
    lineAmong low length address rows =
      (rows.filter fun row => low + row.offset.toNat ≤ address).getLast?.map RowBlueprint.line := by
  -- A row in front of the address is the last such one exactly if the next one is not, since
  -- all others lie behind the next one.
  induction rows with
  | nil => rfl
  | cons row rest ih =>
      have hrest := (List.pairwise_cons.mp hascending).2
      rw [lineAmong, ih hrest, List.filter_cons]
      by_cases hrow : low + row.offset.toNat ≤ address
      · rw [if_pos (decide_eq_true hrow)]
        cases rest with
        | nil => exact if_pos ⟨hrow, hend⟩
        | cons next more =>
            have hmore := (List.pairwise_cons.mp hrest).1
            by_cases hnext : low + next.offset.toNat ≤ address
            · rw [if_neg fun h => Nat.not_lt.mpr hnext h.2, List.filter_cons,
                if_pos (decide_eq_true hnext), List.getLast?_cons_cons]
            · have hnone : (next :: more).filter (fun row => low + row.offset.toNat ≤ address) =
                  [] := by
                rw [List.filter_eq_nil_iff]
                intro other hother
                rw [decide_eq_true_iff]
                rcases List.mem_cons.mp hother with rfl | hother
                · exact hnext
                · have hle := UInt64.le_iff_toNat_le.mp (hmore other hother)
                  omega
              rw [hnone]
              exact if_pos ⟨hrow, Nat.not_le.mp hnext⟩
      · rw [if_neg fun h => hrow h.1, if_neg (by rwa [decide_eq_true_iff])]

/-- Rows in the code of a function tell no line for addresses behind it. -/
theorem lineAmong_eq_none {low length address : Nat} {rows : List RowBlueprint}
    (hinside : ∀ row ∈ rows, row.offset.toNat ≤ length)
    (houtside : ¬(low ≤ address ∧ address < low + length)) :
    lineAmong low length address rows = none := by
  induction rows with
  | nil => rfl
  | cons row rest ih =>
      have hrest := ih fun other hother => hinside other (List.mem_cons_of_mem _ hother)
      rw [lineAmong, hrest, if_neg]
      rintro ⟨hfrom, hto⟩
      cases rest with
      | nil => exact houtside ⟨by omega, hto⟩
      | cons next more =>
          have hnext := hinside next (List.mem_cons_of_mem _ List.mem_cons_self)
          change address < low + next.offset.toNat at hto
          exact houtside ⟨by omega, by omega⟩

namespace Charted

/-- The last row at or in front of an address of the function. -/
theorem lineAt?_of_covers (h : f.Charted) {address : Address} (hcovers : f.Covers address.toNat) :
    f.lineAt? address =
      (f.rows.filter (·.offset ≤ address - f.low)).getLast?.map RowBlueprint.line := by
  have hlow : f.low ≤ address := UInt64.le_iff_toNat_le.mpr hcovers.1
  have hoffset (row : RowBlueprint) : decide (row.offset ≤ address - f.low) =
      decide (f.low.toNat + row.offset.toNat ≤ address.toNat) := by
    rw [decide_eq_decide, UInt64.le_iff_toNat_le, UInt64.toNat_sub_of_le _ _ hlow]
    have := hcovers.1
    omega
  simp only [hoffset]
  exact lineAmong_eq_getLast? hcovers.2 h.ascending

theorem lineAt?_of_not_covers (h : f.Charted) {address : Address}
    (houtside : ¬f.Covers address.toNat) : f.lineAt? address = none :=
  lineAmong_eq_none (fun row hrow => UInt64.le_iff_toNat_le.mp (h.inside row hrow)) houtside

end Charted

/-- A function whose rows start with it has a row for each of its addresses. -/
theorem exists_row {offset : UInt64} (h : f.rows.head?.map (·.offset) = some 0) :
    ∃ row, (f.rows.filter (·.offset ≤ offset)).getLast? = some row := by
  cases hrows : f.rows with
  | nil =>
      rw [hrows] at h
      cases h
  | cons row rest =>
      rw [hrows] at h
      have hzero : row.offset = 0 := Option.some.inj h
      rw [List.filter_cons, if_pos (decide_eq_true (hzero ▸ UInt64.zero_le))]
      exact ⟨_, List.getLast?_cons⟩

end FunctionBlueprint

theorem UnitBlueprint.hasEntries_of_mem {unit : UnitBlueprint} {f : FunctionBlueprint}
    (h : f ∈ unit.functions) : unit.hasEntries = true := by
  rw [hasEntries, List.isEmpty_eq_false_iff.mpr (List.ne_nil_of_mem h)]
  rfl

namespace Blueprint

variable {blueprint : Blueprint} {unit : UnitBlueprint} {f : FunctionBlueprint}

/-- No address lies in the code of two functions. -/
def FunctionsApart (blueprint : Blueprint) : Prop :=
  blueprint.functions.Pairwise fun f g => ∀ address, ¬(f.Covers address ∧ g.Covers address)

/-- Functions that follow one another are apart. -/
theorem FunctionsApart.of_ascending
    (h : blueprint.functions.Pairwise fun f g =>
      f.low.toNat + f.length.toNat ≤ g.low.toNat) : blueprint.FunctionsApart := by
  refine h.imp fun hle address hboth => ?_
  have hend := hboth.1.2
  have hlow := hboth.2.1
  omega

theorem FunctionsApart.eq_of_covers (hapart : blueprint.FunctionsApart)
    (hunit : unit ∈ blueprint.units) {g : FunctionBlueprint} (hf : f ∈ unit.functions)
    (hg : g ∈ unit.functions) {address : Nat} (hcovers : f.Covers address)
    (hother : g.Covers address) : g = f :=
  eq_of_pairwise_apart FunctionBlueprint.Covers hapart (List.mem_flatMap_of_mem hunit hg)
    (List.mem_flatMap_of_mem hunit hf) hother hcovers

/-- The unit tells the line of the only function that covers the address. -/
theorem FunctionsApart.line_eq (hapart : blueprint.FunctionsApart) (hunit : unit ∈ blueprint.units)
    (hcharted : ∀ f ∈ unit.functions, f.Charted) (hf : f ∈ unit.functions) {address : Address}
    (hcovers : f.Covers address.toNat) {row : RowBlueprint}
    (hrow : (f.rows.filter (·.offset ≤ address - f.low)).getLast? = some row) :
    unit.functions.findSome? (·.lineAt? address) = some row.line := by
  have hline : f.lineAt? address = some row.line := by
    rw [(hcharted f hf).lineAt?_of_covers hcovers, hrow, Option.map_some]
  refine Lookup.findSome?_eq_some_of_agree ⟨f, hf, hline⟩ fun g hg line hother => ?_
  by_cases hg' : g.Covers address.toNat
  · rw [hapart.eq_of_covers hunit hf hg hcovers hg', hline] at hother
    exact (Option.some.inj hother).symm
  · rw [(hcharted g hg).lineAt?_of_not_covers hg'] at hother
    cases hother

/-- And that function is the one that is found, unless its code is listed. -/
theorem FunctionsApart.find?_eq (hapart : blueprint.FunctionsApart) (hunit : unit ∈ blueprint.units)
    (hf : f ∈ unit.functions) (hshape : f.shape ≠ .rangeList) {address : Nat}
    (hcovers : f.Covers address) :
    (unit.functions.find? fun g => g.shape ≠ .rangeList ∧ g.Covers address) = some f :=
  Lookup.find?_eq_some_of_agree hf ⟨hshape, hcovers⟩ fun _ hg hother =>
    hapart.eq_of_covers hunit hf hg hcovers hother.2

/-- A unit says of a call in one of its functions what the blueprint says. -/
theorem Fits.attributes (hfits : blueprint.Fits) (hnamed : unit.Named)
    (hcharted : ∀ f ∈ unit.functions, f.Charted) (hapart : blueprint.FunctionsApart)
    {place : UnitPlace} (hmem : (place, unit) ∈ blueprint.placedUnits) (hf : f ∈ unit.functions)
    (hshape : f.shape ≠ .rangeList) {site : Address} (hsite : f.Covers site.toNat)
    {row : RowBlueprint}
    (hrow : (f.rows.filter (·.offset ≤ site - f.low)).getLast? = some row) :
    blueprint.sections.engine.Attributes place.info site ⟨unit.file, place.lines⟩ row.line
      ⟨f.name, f.low⟩ where
  of_file := by
    refine ((hfits.writtenIn hmem).fileForUnit hnamed fun f hf => (hcharted f hf).bounded).trans ?_
    exact if_pos (UnitBlueprint.hasEntries_of_mem hf)
  of_line := by
    have hentries := UnitBlueprint.hasEntries_of_mem hf
    refine ((hfits.writtenIn hmem).lineForAddress hnamed hentries hcharted site).trans ?_
    rw [hapart.line_eq (mem_of_mem_layOut hmem) hcharted hf hsite hrow]
    rfl
  of_function := by
    have hbounded : ∀ f ∈ unit.functions, f.Bounded := fun f hf => (hcharted f hf).bounded
    refine ((hfits.writtenIn hmem).functionForAddress hnamed hbounded site).trans ?_
    rw [hapart.find?_eq (mem_of_mem_layOut hmem) hf hshape hsite]
    rfl

end Blueprint

/-- The address behind a call in a unit does not wrap, so its call is found again. -/
theorem callSite_add {unit : UnitBlueprint} (hbounded : ∀ f ∈ unit.functions, f.Bounded)
    {site : Address} (hreturn : unit.Spans (site.toNat + callLength)) :
    (site + 5).toNat = site.toNat + callLength ∧ callSite (site + 5) = site := by
  obtain ⟨last, hlast, hend⟩ := hreturn.2
  have hlimit : last.low.toNat + last.length.toNat < 2 ^ 64 := hbounded last hlast
  have haddress : (site + 5).toNat = site.toNat + callLength :=
    (UInt64.toNat_add site 5).trans (Nat.mod_eq_of_lt (Nat.lt_trans hend hlimit))
  exact ⟨haddress, by rw [callSite, haddress, Nat.add_sub_cancel, UInt64.ofNat_toNat]⟩

/-- In an image of functions and units that do not overlap, the address behind a call in a
function is resolved to the file of its unit, to the line of its last row in front of the call, and
to the function itself. -/
theorem resolveAddress_behind_call {blueprint : Blueprint} {assembled : AssembledImage}
    (hassemble : blueprint.assemble = .ok assembled) (hfits : blueprint.Fits)
    (hnamed : ∀ unit ∈ blueprint.units, unit.Named)
    (hcharted : ∀ unit ∈ blueprint.units, ∀ f ∈ unit.functions, f.Charted)
    (hunits : blueprint.UnitsApart) (hfunctions : blueprint.FunctionsApart)
    {unit : UnitBlueprint} (hunit : unit ∈ blueprint.units)
    {f : FunctionBlueprint} (hf : f ∈ unit.functions) (hshape : f.shape ≠ .rangeList)
    (hrows : f.rows.head?.map (·.offset) = some 0)
    {site : Address} (hsite : f.Covers site.toNat) (hreturn : unit.Spans (site.toNat + callLength))
    {config : Config} (hkernel : config.kernelStart.toNat ≤ site.toNat + callLength)
    (out : Location) :
    ∃ location row,
      (assembled.image.resolveAddress config (site + 5) out).start.1 = .ok location ∧
      (f.rows.filter (·.offset ≤ site - f.low)).getLast? = some row ∧
      location.Reports unit.file row.line ⟨f.name, f.low⟩ ∧
      location.address = site + 5 ∧ location.argumentCount = 0 := by
  obtain ⟨place, hmem⟩ : ∃ place, (place, unit) ∈ blueprint.placedUnits :=
    exists_mem_layOut _ hunit
  obtain ⟨row, hrow⟩ := FunctionBlueprint.exists_row hrows
  obtain ⟨haddress, hcall⟩ :=
    callSite_add (fun f hf => (hcharted unit hunit f hf).bounded) hreturn
  have hzero : site + 5 ≠ 0 := by
    intro heq
    rw [heq] at haddress
    cases haddress
  -- The address behind the call selects the unit; line and function are looked up at the call.
  have hunitAt : (blueprint.sections.unitForAddress (site + 5)).answer = .ok place.info := by
    refine hfits.unitForAddress hnamed (fun unit hunit f hf => ?_) hunits hmem
      (haddress ▸ hreturn)
    exact ⟨(hcharted unit hunit f hf).kept, (hcharted unit hunit f hf).bounded⟩
  have hattributes := hfits.attributes (hnamed unit hunit) (hcharted unit hunit) hfunctions hmem
    hf hshape hsite hrow
  rw [← hcall] at hattributes
  have hlocated := Engine.located_eq_ok_iff.mpr
    ⟨place.info, _, row.line, _, hunitAt, hattributes, rfl⟩
  have hresult := (blueprint.sections.engine.resolveAddress_yields_located hzero
    (UInt64.le_iff_toNat_le.mpr (haddress ▸ hkernel)) out).start
  rw [Blueprint.image_of_assemble hassemble]
  exact ⟨_, row, hresult.trans hlocated, hrow, ⟨Bounded.contents_copyFrom _ _, rfl,
    Bounded.contents_copyFrom _ _, rfl⟩, rfl, rfl⟩

/-- Two units of which the first has an instance of an inlined function, a variable of the same
name and a function whose code is listed. -/
def instanceUnits : Blueprint where
  units := [
    ⟨Bytes.ofText "a", [⟨Bytes.ofText "first", 0x800000001000, 16, [⟨0, 10⟩, ⟨4, 12⟩], true,
        .outOfLine⟩,
      ⟨Bytes.ofText "list", 0x800000001010, 16, [⟨0, 20⟩], true, .rangeList⟩],
      [Bytes.ofText "first"]⟩,
    ⟨Bytes.ofText "b", [⟨Bytes.ofText "next", 0x800000001020, 16, [⟨0, 30⟩], false,
        .contiguous⟩], []⟩]
  symbols := []
  addressIndex := true
  danglingNames := []

/-- The call at the end of the instance is resolved to its second row. -/
theorem instanceUnits_resolveAddress : ∃ assembled location,
    instanceUnits.assemble = .ok assembled ∧
    (assembled.image.resolveAddress .default (0x80000000100b + 5) (.fresh 0)).start.1 =
      .ok location ∧
    location.Reports (Bytes.ofText "a") 12 ⟨Bytes.ofText "first", 0x800000001000⟩ := by
  have hfits : instanceUnits.Fits := .of_length_lt (by intro kind; cases kind <;> decide +kernel)
  obtain ⟨assembled, hassemble⟩ := Blueprint.exists_assemble hfits.sections (by decide)
    (by decide) (by decide) (by decide)
  have hsite : instanceUnits.units[0].functions[0].Covers (0x80000000100b : Address).toNat := by
    decide
  have hreturn : instanceUnits.units[0].Spans ((0x80000000100b : Address).toNat + callLength) := by
    decide
  obtain ⟨location, row, hresult, hrow, hreports, _⟩ := resolveAddress_behind_call hassemble hfits
    (by decide) (by decide) (.of_ascending (by decide)) (.of_ascending (by decide))
    (List.getElem_mem _) (List.getElem_mem _) (by decide) rfl hsite hreturn
    (by decide : Config.default.kernelStart.toNat ≤ _) (.fresh 0)
  obtain rfl : row = ⟨4, 12⟩ := Option.some.inj (hrow.symm.trans (by decide))
  exact ⟨assembled, location, hassemble, hresult, hreports⟩

/-- Short sections are not enough. Where the length of the unit is one that the format keeps for
itself, the address behind a call is not resolved. -/
theorem reservedImage_resolveAddress : ∃ assembled,
    reservedImage.assemble = .ok assembled ∧ reservedImage.Short ∧
    (∀ unit ∈ reservedImage.units, unit.Named) ∧
    (∀ unit ∈ reservedImage.units, ∀ f ∈ unit.functions, f.Charted) ∧
    reservedImage.UnitsApart ∧ reservedImage.FunctionsApart ∧
    (∃ unit ∈ reservedImage.units, rowedFunction ∈ unit.functions ∧
      unit.Spans ((0x800000001008 : Address).toNat + callLength)) ∧
    rowedFunction.shape ≠ .rangeList ∧ rowedFunction.rows.head?.map (·.offset) = some 0 ∧
    rowedFunction.Covers (0x800000001008 : Address).toNat ∧
    Config.default.kernelStart.toNat ≤ (0x800000001008 : Address).toNat + callLength ∧
    (assembled.image.resolveAddress .default (0x800000001008 + 5) (.fresh 0)).start.1 =
      .error ⟨.fresh (0x800000001008 + 5), .lookup (.format .reservedLength)⟩ := by
  obtain ⟨assembled, hassemble⟩ := reservedImage_assembles
  have hmem : rowedFunction ∈ (longUnit 4294967242).functions := List.mem_singleton_self _
  refine ⟨assembled, hassemble, reservedImage_short, reservedImage_named, reservedImage_charted,
    List.pairwise_singleton _ _, List.pairwise_singleton _ _,
    ⟨_, List.mem_singleton_self _, hmem, ⟨_, hmem, by decide⟩, _, hmem, by decide⟩, by decide,
    rfl, by decide, by decide, ?_⟩
  -- The index still leads to the unit, which is refused when its file is asked for.
  have hcode : (longUnit 4294967242).HasCodeAt (0x800000001008 + 5 : Address).toNat :=
    ⟨_, hmem, by decide⟩
  have hunit := reservedImage_short.unitForAddress_indexed reservedImage_kept rfl
    (List.find?_cons_of_pos (decide_eq_true hcode))
  have hfile := reservedImage_liesIn.fileForUnit_reserved reservedImage_info
  rw [Blueprint.image_of_assemble hassemble]
  exact (reservedImage.sections.engine.resolveAddress_yields_located (by decide)
    (by decide) _).start.trans (Engine.located_eq_error_of_file hunit hfile)

end Symbolizer
