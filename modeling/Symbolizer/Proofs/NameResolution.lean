import Symbolizer.Proofs.Blueprint.ReservedLengths
import Symbolizer.Proofs.Blueprint.Symbols
import Symbolizer.Proofs.Resolving

/-! # Names in assembled images

What a name is resolved to can be told from the blueprint of an image. The index of
names, the debug entries and the symbol table are written and read apart from each
other, and each decides only where those before it are silent.
-/

namespace Symbolizer

open Dwarf

namespace Blueprint

/-- What a name is to be resolved to: the first function of the name that is indexed, or else the
first one at all, or else the first global function symbol. In between, an entry of the index that
has the name and leads nowhere cannot be overlooked. -/
def resolution (blueprint : Blueprint) (name : Bytes) : Except Fatal Address :=
  match (blueprint.functions.filter (·.indexed)).findSome? (·.addressFor? name) with
  | some address => .ok address
  | none =>
    if blueprint.danglingNames.any (·.name = name) then
      .error (.malformedIndex (.format .endOfInput))
    else
      match blueprint.functions.findSome? (·.addressFor? name) with
      | some address => .ok address
      | none => .ok ((blueprint.symbols.findSome? (·.addressFor? name)).getD 0)

end Blueprint

/-- Names are resolved as the blueprint of the image tells. Neither variables of the name nor
entries without code nor entries of other names that lead nowhere have a part in it. -/
theorem resolveName_eq_resolution {blueprint : Blueprint} {assembled : AssembledImage}
    (hassemble : blueprint.assemble = .ok assembled) (hfits : blueprint.Fits)
    (hnames : blueprint.NamesFit) (hnamed : ∀ unit ∈ blueprint.units, unit.Named)
    (hbounded : ∀ unit ∈ blueprint.units, ∀ f ∈ unit.functions, f.Bounded)
    (hdangling : blueprint.Dangling) (name : Bytes) :
    (assembled.image.resolveName name).start.1 = blueprint.resolution name := by
  rw [Blueprint.image_of_assemble hassemble]
  have hindex : (blueprint.image.sections.engine.addressByIndex name).answer = _ :=
    hfits.addressByIndex hnames hnamed hbounded hdangling name
  have hscan : (blueprint.image.sections.engine.addressByScan name).answer = _ :=
    hfits.addressByScan hnamed hbounded name
  refine (Engine.resolveName_yields_named _ _ name).start.trans ?_
  rw [Engine.named, hindex, hscan, Blueprint.find?_symbolTable hnames.symbolNames,
    Blueprint.resolution]
  cases (blueprint.functions.filter (·.indexed)).findSome? (·.addressFor? name) with
  | some address => rfl
  | none =>
      by_cases hany : blueprint.danglingNames.any (·.name = name) = true
      · rw [if_pos hany, if_pos hany]
        rfl
      · rw [if_neg hany, if_neg hany]
        cases blueprint.functions.findSome? (·.addressFor? name) with
        | some address => rfl
        | none => rfl

/-- A unit with a function whose code is listed, a variable of the same name and a function that
the index does not list; an entry of the index that leads nowhere; and a symbol. -/
def namesakes : Blueprint where
  units := [⟨Bytes.ofText "a", [⟨Bytes.ofText "work", 0x100, 16, [], true, .rangeList⟩,
    ⟨Bytes.ofText "idle", 0x200, 16, [⟨0, 1⟩], false, .separatelyDeclared⟩],
    [Bytes.ofText "work"]⟩]
  symbols := [.globalFunction (Bytes.ofText "work") 0x300]
  addressIndex := true
  danglingNames := [⟨Bytes.ofText "gone", 0x1000⟩]

/-- The first name is that of a symbol, the second leads nowhere, and the third is scanned for. -/
theorem namesakes_resolveName : ∃ assembled, namesakes.assemble = .ok assembled ∧
    (assembled.image.resolveName (Bytes.ofText "work")).start.1 = .ok 0x300 ∧
    (assembled.image.resolveName (Bytes.ofText "gone")).start.1 =
      .error (.malformedIndex (.format .endOfInput)) ∧
    (assembled.image.resolveName (Bytes.ofText "idle")).start.1 = .ok 0x200 := by
  have hfits : namesakes.Fits := .of_length_lt (by intro kind; cases kind <;> decide +kernel)
  obtain ⟨assembled, hassemble⟩ := Blueprint.exists_assemble hfits.sections (by decide)
    (by decide) (by decide) (by decide)
  have hnames : namesakes.NamesFit := .of_length_lt (by decide) (by decide +kernel)
  have hdangling : namesakes.Dangling := by
    intro entry hentry
    rw [List.mem_singleton.mp hentry]
    exact ⟨by decide, by decide +kernel⟩
  have hresolve := resolveName_eq_resolution hassemble hfits hnames (by decide) (by decide)
    hdangling
  exact ⟨assembled, hassemble, hresolve _, hresolve _, hresolve _⟩

/-- Short sections are not enough. Where the length of the unit is one that the format keeps for
itself, the name of its function is not resolved. -/
theorem reservedImage_resolveName : ∃ assembled,
    reservedImage.assemble = .ok assembled ∧ reservedImage.Short ∧
    (SymbolBlueprint.names reservedImage.symbols).length < 2 ^ 32 ∧
    (∀ unit ∈ reservedImage.units, unit.Named) ∧
    (∀ unit ∈ reservedImage.units, ∀ f ∈ unit.functions, f.Bounded) ∧ reservedImage.Dangling ∧
    reservedImage.resolution (Bytes.ofText "f") = .ok 0x800000001000 ∧
    (assembled.image.resolveName (Bytes.ofText "f")).start.1 =
      .error (.malformedEntries (.format .reservedLength)) := by
  obtain ⟨assembled, hassemble⟩ := reservedImage_assembles
  refine ⟨assembled, hassemble, reservedImage_short, reservedImage_namesFit.symbolNames,
    reservedImage_named, fun unit hunit f hf => (reservedImage_kept unit hunit f hf).2, nofun, rfl,
    ?_⟩
  -- The index does not list the function, and the scan does not get past the unit.
  have hindex : (reservedImage.image.sections.engine.addressByIndex (Bytes.ofText "f")).answer =
      .error .notFound := by
    change (reservedImage.sections.addressByIndex _).answer = _
    rw [Sections.addressByIndex, reservedImage_short.indexedNames reservedImage_namesFit
      reservedImage_named nofun]
    rfl
  have hscan : (reservedImage.image.sections.engine.addressByScan (Bytes.ofText "f")).answer =
      .error (.format .reservedLength) :=
    reservedImage_short.addressByScan_reserved rfl reservedImage_info _
  rw [Blueprint.image_of_assemble hassemble]
  refine (Engine.resolveName_yields_named _ _ _).start.trans ?_
  rw [Engine.named, hindex, hscan]

end Symbolizer
