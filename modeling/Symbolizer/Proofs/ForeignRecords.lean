import Symbolizer.Boundary
import Symbolizer.Proofs.Blueprint.Placement
import Symbolizer.Proofs.ZeroFreeNames

/-! # Records of foreign callers

A foreign caller reads a name up to its first zero byte and no further than its array goes.
Names hold no zero byte, and all cells behind one are zero. So the caller reads exactly
what the location holds, and the stated length of the function's name agrees with that.
-/

namespace Symbolizer

/-- The text that a foreign caller reads from an array. -/
def foreignText {capacity : Nat} (array : Vector UInt8 capacity) : Bytes :=
  array.toList.takeWhile (· ≠ 0)

/-- The buffer was filled from a name without zero bytes. -/
def Bounded.HoldsName {capacity : Nat} (buffer : Bounded capacity) : Prop :=
  ∃ name, 0 ∉ name ∧ buffer = ofBytes name

namespace Bounded.HoldsName

variable {capacity : Nat} {buffer : Bounded capacity}

theorem of_name {name : Bytes} (h : 0 ∉ name) : (ofBytes name : Bounded capacity).HoldsName :=
  ⟨name, h, rfl⟩

theorem length_eq (h : buffer.HoldsName) : buffer.length = buffer.contents.length := by
  obtain ⟨name, -, rfl⟩ := h
  rw [ofBytes, contents_copyFrom, List.length_take, Nat.min_comm]
  rfl

theorem length_le (h : buffer.HoldsName) : buffer.length ≤ capacity := by
  obtain ⟨name, -, rfl⟩ := h
  exact Nat.min_le_right _ _

theorem raw_eq_zero_iff (h : buffer.HoldsName) {i : Nat} (hi : i < capacity) :
    buffer.raw[i] = 0 ↔ buffer.length ≤ i := by
  obtain ⟨name, hname, rfl⟩ := h
  have hcell : (ofBytes name : Bounded capacity).raw[i] = name.getD i 0 := by
    simp [ofBytes, copyFrom]
  have hlength : (ofBytes name : Bounded capacity).length = min name.length capacity := rfl
  rw [hcell, hlength]
  by_cases hinside : i < name.length
  · have hne : name[i] ≠ 0 := fun hzero => hname (hzero ▸ List.getElem_mem hinside)
    simp [hinside, hne]
    omega
  · simp [hinside]
    omega

/-- The array has a zero byte exactly if the name leaves room for one. -/
theorem zero_mem_raw_iff (h : buffer.HoldsName) :
    0 ∈ buffer.raw ↔ buffer.contents.length < capacity := by
  rw [← h.length_eq, Vector.mem_iff_getElem]
  constructor
  · rintro ⟨i, hi, hzero⟩
    exact Nat.lt_of_le_of_lt ((h.raw_eq_zero_iff hi).mp hzero) hi
  · intro hroom
    exact ⟨buffer.length, hroom, (h.raw_eq_zero_iff hroom).mpr (Nat.le_refl _)⟩

theorem foreignText_raw (h : buffer.HoldsName) : foreignText buffer.raw = buffer.contents := by
  obtain ⟨name, hname, rfl⟩ := h
  have hnonzero : ∀ b ∈ name.take capacity, decide (b ≠ 0) = true := by
    intro b hb
    exact decide_eq_true fun hzero => hname (hzero ▸ List.mem_of_mem_take hb)
  rw [foreignText, ofBytes, raw_copyFrom, contents_copyFrom,
    List.takeWhile_append_of_pos hnonzero]
  simp

end Bounded.HoldsName

/-- What a foreign caller reads in the record is what the location holds. -/
structure LocationRecord.Shows (record : LocationRecord) (location : Location) : Prop where
  file : foreignText record.file = location.file.contents
  file_terminated : 0 ∈ record.file ↔ location.file.contents.length < 256
  functionName : foreignText record.functionName = location.function.contents
  functionName_terminated : 0 ∈ record.functionName ↔ location.function.contents.length < 256
  length_le : record.functionNameLength.toNat ≤ 256
  length_eq : record.functionNameLength.toNat = location.function.contents.length
  zero_iff : ∀ i, ∀ hi : i < 256,
    record.functionName[i] = 0 ↔ record.functionNameLength.toNat ≤ i
  line : record.line = location.line
  functionEntry : record.functionEntry = location.entry
  argumentCount : record.argumentCount = location.argumentCount

structure Location.HoldsNames (location : Location) : Prop where
  file : location.file.HoldsName
  function : location.function.HoldsName

theorem Location.holdsNames_fresh (address : Address) : (fresh address).HoldsNames where
  file := .of_name (by decide)
  function := .of_name (by decide)

theorem LocationRecord.shows_ofLocation {location : Location} (h : location.HoldsNames) :
    (ofLocation location).Shows location := by
  have hle := h.function.length_le
  have hlength : (ofLocation location).functionNameLength.toNat = location.function.length :=
    UInt32.toNat_ofNat_of_lt' (show location.function.length < 2 ^ 32 by omega)
  exact {
    file := h.file.foreignText_raw
    file_terminated := h.file.zero_mem_raw_iff
    functionName := h.function.foreignText_raw
    functionName_terminated := h.function.zero_mem_raw_iff
    length_le := by rw [hlength]; exact hle
    length_eq := by rw [hlength, h.function.length_eq]
    zero_iff := fun i hi => by rw [hlength]; exact h.function.raw_eq_zero_iff hi
    line := rfl
    functionEntry := rfl
    argumentCount := rfl }

/-- The location is filled or some lookup has stopped the resolution, and its names are as they
were decoded. -/
theorem Engine.located_holdsNames (engine : Engine)
    (hfile : ∀ unit file, (engine.fileForUnit unit).answer = .ok file → 0 ∉ file.name)
    (hfunction : ∀ address unit function,
      (engine.functionForAddress address unit).answer = .ok function → 0 ∉ function.name)
    (address : Address) :
    (∃ location, engine.located address = .ok location ∧ location.HoldsNames) ∨
      ∃ location error, engine.located address = .error ⟨location, .lookup error⟩ ∧
        location.HoldsNames := by
  have hfresh := Location.holdsNames_fresh address
  have hnamed {unit : Nat} {file : SourceFile} (h : (engine.fileForUnit unit).answer = .ok file) :
      (Bounded.ofBytes file.name : Bounded 256).HoldsName := .of_name (hfile unit file h)
  cases hresult : engine.located address with
  | ok location =>
      obtain ⟨unit, file, line, function, _, hattributes, rfl⟩ := located_eq_ok_iff.mp hresult
      exact Or.inl ⟨_, rfl, hnamed hattributes.of_file,
        .of_name (hfunction _ _ _ hattributes.of_function)⟩
  | error stopped =>
      obtain ⟨error, rfl | ⟨unit, file, line, hknown, rfl⟩⟩ := stopped_of_located_eq_error hresult
      · exact Or.inr ⟨_, error, rfl, hfresh⟩
      · exact Or.inr ⟨_, error, rfl, hnamed hknown, hfresh.function⟩

namespace Boundary

/-- What a status says of a resolution that leaves a location. -/
inductive Reports : Status → Except Stopped Location → Location → Prop
  | ok (location : Location) : Reports .ok (.ok location) location
  | notFound (location : Location) :
    Reports .notFound (.error ⟨location, .lookup .notFound⟩) location
  | malformed (location : Location) {error : LookupError} (hfound : error ≠ .notFound) :
    Reports .malformed (.error ⟨location, .lookup error⟩) location

theorem reports_ofError (location : Location) (error : LookupError) :
    Reports (.ofError error) (.error ⟨location, .lookup error⟩) location := by
  cases error with
  | notFound => exact .notFound location
  | _ => exact .malformed location nofun

variable {image : Image} {address : Address} {location : Location} {trace : Trace}

theorem start_resolveAddress_of_ok
    (h : (image.resolveAddress .default address (.fresh address)).start = (.ok location, trace))
    (out : LocationRecord) : (resolveAddress (some image) address (some out)).start =
      (.ok (.ok, some (.ofLocation location)), trace) := by
  have hrun : (image.resolveAddress .default address (.fresh address)).run .empty =
    (.ok location, trace) := h
  change resolveAddress (some image) address (some out) .empty = _
  simp only [resolveAddress, hrun]

theorem start_resolveAddress_of_lookup {error : LookupError}
    (h : (image.resolveAddress .default address (.fresh address)).start =
      (.error ⟨location, .lookup error⟩, trace))
    (out : LocationRecord) : (resolveAddress (some image) address (some out)).start =
      (.ok (.ofError error, some (.ofLocation location)), trace) := by
  have hrun : (image.resolveAddress .default address (.fresh address)).run .empty =
    (.error ⟨location, .lookup error⟩, trace) := h
  change resolveAddress (some image) address (some out) .empty = _
  simp only [resolveAddress, hrun]

/-- For an address that the resolver does not refuse, a foreign call always writes its record. The
status says how the resolution ends, and the record shows the location that it leaves, whatever
was in either before. Names in the image never hold a zero byte, so none is cut short by one. -/
theorem resolveAddress_writes_record (image : Image) {address : Address}
    (haddress : address = 0 ∨ Config.default.kernelStart ≤ address) (out : LocationRecord)
    (earlier : Location) :
    (∃ outcome trace status location,
      (image.resolveAddress .default address earlier).start = (outcome, trace) ∧
      (resolveAddress (some image) address (some out)).start =
        (.ok (status, some (.ofLocation location)), trace) ∧
      Reports status outcome location ∧ (LocationRecord.ofLocation location).Shows location) ∧
    image.NamesZeroFree := by
  have hnames := image.namesZeroFree
  refine ⟨?_, hnames⟩
  have hearlier : (image.resolveAddress .default address earlier).start =
      (image.resolveAddress .default address (.fresh address)).start :=
    congrArg Traced.start (Engine.resolveAddress_eq_of_fresh _ _ _ _)
  rw [hearlier]
  rcases haddress with rfl | hkernel
  · have hstart : (image.resolveAddress .default 0 (.fresh 0)).start =
        (.ok (.fresh 0), .empty) :=
      congrArg Traced.start (Engine.resolveAddress_zero _ _ _)
    exact ⟨_, _, _, _, hstart, start_resolveAddress_of_ok hstart out, .ok _,
      LocationRecord.shows_ofLocation (Location.holdsNames_fresh 0)⟩
  · have hzero : address ≠ 0 := by
      rintro rfl
      exact absurd hkernel (by decide)
    have hlocated := (image.sections.engine.resolveAddress_yields_located hzero hkernel
      (.fresh address)).start
    rcases image.sections.engine.located_holdsNames hnames.files hnames.functions address with
      ⟨location, hok, hholds⟩ | ⟨location, error, herror, hholds⟩
    · have hstart : (image.resolveAddress .default address (.fresh address)).start =
          (.ok location, _) := Prod.ext (hlocated.trans hok) rfl
      exact ⟨_, _, _, _, hstart, start_resolveAddress_of_ok hstart out, .ok _,
        LocationRecord.shows_ofLocation hholds⟩
    · have hstart : (image.resolveAddress .default address (.fresh address)).start =
          (.error ⟨location, .lookup error⟩, _) := Prod.ext (hlocated.trans herror) rfl
      exact ⟨_, _, _, _, hstart, start_resolveAddress_of_lookup hstart out,
        reports_ofError location error, LocationRecord.shows_ofLocation hholds⟩

/-- A function of the kernel without rows of lines. -/
def trapHandler : Image := Blueprint.image {
  units := [⟨Bytes.ofText "trap.c", [⟨Bytes.ofText "trap", 0x800000001000, 16, [], true,
    .contiguous⟩], []⟩]
  symbols := []
  addressIndex := true
  danglingNames := [] }

/-- A foreign caller reads the file, of which the placeholder that it replaces has left nothing, and
the placeholder of the function. -/
theorem trapHandler_record : ∃ record,
    (resolveAddress (some trapHandler) 0x800000001005
      (some (.ofLocation (.fresh 0)))).start.1 = .ok (.notFound, some record) ∧
    foreignText record.file = Bytes.ofText "trap.c" ∧ 0 ∈ record.file ∧
    foreignText record.functionName = Location.unknownName ∧
    record.functionNameLength.toNat = 9 := by
  have hunit : (trapHandler.sections.unitForAddress 0x800000001005).answer = .ok 0 := by
    decide +kernel
  have hfile : (trapHandler.sections.fileForUnit 0).answer = .ok ⟨Bytes.ofText "trap.c", 0⟩ := by
    decide +kernel
  have hline : (trapHandler.sections.lineForAddress (callSite 0x800000001005) 0).answer =
      .error .notFound := by decide +kernel
  have hlocated : trapHandler.sections.engine.located 0x800000001005 = _ :=
    Engine.located_eq_error_of_line hunit hfile hline
  have hkernel : Config.default.kernelStart ≤ 0x800000001005 := by decide
  have hresult := (trapHandler.sections.engine.resolveAddress_yields_located (by decide) hkernel
    (.fresh 0)).start.trans hlocated
  obtain ⟨⟨outcome, trace, status, location, hstart, hcall, hreports, hshows⟩, -⟩ :=
    resolveAddress_writes_record trapHandler (Or.inr hkernel) (.ofLocation (.fresh 0)) (.fresh 0)
  obtain rfl : outcome = .error _ := (congrArg Prod.fst hstart).symm.trans hresult
  cases hreports with
  | malformed _ hfound => exact absurd rfl hfound
  | notFound =>
      have hname : (Location.fresh 0x800000001005).function.contents = Location.unknownName :=
        Bounded.contents_ofBytes _
      refine ⟨_, congrArg Prod.fst hcall, ?_, ?_, ?_, ?_⟩
      · rw [hshows.file]
        exact Bounded.contents_ofBytes _
      · rw [hshows.file_terminated, Bounded.contents_ofBytes]
        decide
      · exact hshows.functionName.trans hname
      · rw [hshows.length_eq, hname]
        rfl

end Boundary

end Symbolizer
