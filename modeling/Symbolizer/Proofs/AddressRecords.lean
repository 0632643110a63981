import Mathlib.Tactic.Choose
import Symbolizer.CommandLine
import Symbolizer.Proofs.AddressTexts
import Symbolizer.Proofs.Resolving

/-! # Records of addresses

A run that is asked for addresses prints a record for each of them, in order, and ends well,
whatever the debug sections of the image hold. Addresses that the resolver would refuse do
not reach it. All else that can go wrong with an address stops its own record only.
-/

namespace Symbolizer

namespace Hex

/-- The text is the mark and sixteen digits, and it is read as the address. -/
structure Spells (text : String) (address : Address) : Prop where
  digits : ∃ digits : List Char, text.toList = '0' :: 'x' :: digits ∧ digits.length = 16 ∧
    ∀ c ∈ digits, ∃ value < 16, c = digit value
  parse_eq : parse text.toList = .ok address

theorem spells_padded (address : Address) : Spells (padded address) address where
  digits := ⟨fixedDigits 16 address.toNat, String.toList_ofList, length_fixedDigits _ _,
    fun _ h => exists_of_mem_fixedDigits h⟩
  parse_eq := parse_eq_iff.mpr (.number (denotes_of_renders (renders_padded address)))

end Hex

/-- An address that the resolver does not refuse fills its location or fails in a lookup. -/
theorem Image.start_resolveAddress (image : Image) {config : Config} {address : Address}
    (hkernel : address = 0 ∨ config.kernelStart ≤ address) :
    (∃ location trace, (image.resolveAddress config address (.fresh address)).start =
      (.ok location, trace)) ∨
    ∃ location error trace, (image.resolveAddress config address (.fresh address)).start =
      (.error ⟨location, .lookup error⟩, trace) := by
  rcases eq_or_ne address 0 with rfl | hzero
  · exact Or.inl ⟨.fresh 0, .empty, congrArg Traced.start (Engine.resolveAddress_zero _ _ _)⟩
  · have hlocated := (image.sections.engine.resolveAddress_yields_located hzero
      (hkernel.resolve_left hzero) (.fresh address)).start
    cases hresult : image.sections.engine.located address with
    | ok location => exact Or.inl ⟨location, _, Prod.ext (hlocated.trans hresult) rfl⟩
    | error stopped =>
        obtain ⟨error, rfl | ⟨_, _, _, _, rfl⟩⟩ := Engine.stopped_of_located_eq_error hresult
        · exact Or.inr ⟨_, error, _, Prod.ext (hlocated.trans hresult) rfl⟩
        · exact Or.inr ⟨_, error, _, Prod.ext (hlocated.trans hresult) rfl⟩

theorem Config.not_user_iff {config : Config} {address : Address} :
    ¬(address ≠ 0 ∧ address < config.kernelStart) ↔ address = 0 ∨ config.kernelStart ≤ address := by
  rw [not_and_or, not_not, UInt64.not_lt]

namespace CommandLine

/-- What a record tells of an address. -/
inductive Tells (image : Image) (config : Config) (address : Address) : String → Prop
  | user (hzero : address ≠ 0) (huser : address < config.kernelStart) :
    Tells image config address "not a kernel address"
  | filled {location : Location} {trace : Trace}
    (hkernel : address = 0 ∨ config.kernelStart ≤ address)
    (h : (image.resolveAddress config address (.fresh address)).start = (.ok location, trace)) :
    Tells image config address location.text
  | stopped {location : Location} {error : LookupError} {trace : Trace}
    (hkernel : address = 0 ∨ config.kernelStart ≤ address)
    (h : (image.resolveAddress config address (.fresh address)).start =
      (.error ⟨location, .lookup error⟩, trace)) :
    Tells image config address (location.text ++ "  (" ++ error.message ++ ")")

/-- Every location has a colon behind its file, and the text about user addresses has none. -/
theorem Tells.eq_iff {image : Image} {config : Config} {address : Address} {told : String}
    (h : Tells image config address told) :
    told = "not a kernel address" ↔ address ≠ 0 ∧ address < config.kernelStart := by
  have hcolon (location : Location) : ':' ∈ location.text.toList := by
    simp [Location.text, String.toList_append]
  have hnone : ':' ∉ "not a kernel address".toList := by decide
  cases h with
  | user hzero huser => exact iff_of_true rfl ⟨hzero, huser⟩
  | filled hkernel h =>
      refine iff_of_false (fun heq => hnone ?_) (Config.not_user_iff.mpr hkernel)
      rw [← heq]
      exact hcolon _
  | stopped hkernel h =>
      refine iff_of_false (fun heq => hnone ?_) (Config.not_user_iff.mpr hkernel)
      rw [← heq]
      simp [String.toList_append, hcolon]

/-- There is one thing to tell of an address. -/
theorem Tells.unique {image : Image} {config : Config} {address : Address} {told other : String}
    (h : Tells image config address told) (hother : Tells image config address other) :
    told = other := by
  cases h with
  | user hzero huser => exact (hother.eq_iff.mpr ⟨hzero, huser⟩).symm
  | filled hkernel h =>
      cases hother with
      | user hzero huser => exact absurd ⟨hzero, huser⟩ (Config.not_user_iff.mpr hkernel)
      | filled _ h' =>
          rw [h] at h'
          cases h'
          rfl
      | stopped _ h' =>
          rw [h] at h'
          cases h'
  | stopped hkernel h =>
      cases hother with
      | user hzero huser => exact absurd ⟨hzero, huser⟩ (Config.not_user_iff.mpr hkernel)
      | filled _ h' =>
          rw [h] at h'
          cases h'
      | stopped _ h' =>
          rw [h] at h'
          cases h'
          rfl

theorem exists_printAddress (image : Image) (config : Config) (address : Address) :
    ∃ told log, Tells image config address told ∧
      printAddress image config address =
        ⟨[Hex.padded address ++ "  " ++ told], log, .success⟩ := by
  by_cases huser : address ≠ 0 ∧ address < config.kernelStart
  · refine ⟨_, [], .user huser.1 huser.2, ?_⟩
    simp only [printAddress, if_pos huser]
  · have hkernel := Config.not_user_iff.mp huser
    rcases image.start_resolveAddress hkernel with
      ⟨location, trace, h⟩ | ⟨location, error, trace, h⟩
    · refine ⟨_, trace.log, .filled hkernel h, ?_⟩
      simp only [printAddress, if_neg huser, h]
    · refine ⟨_, trace.log, .stopped hkernel h, ?_⟩
      simp only [printAddress, if_neg huser, h, String.append_assoc]

namespace Output

theorem andThen_of_success {first : Output} (h : first.ending = .success) (second : Output) :
    first.andThen second =
      ⟨first.records ++ second.records, first.log ++ second.log, second.ending⟩ := by
  rw [andThen, h]

/-- Where no item ends the run, all of them leave their records. -/
theorem sequence_of_success {α : Type} {f : α → Output} {record : α → String}
    (h : ∀ a, (f a).ending = .success ∧ (f a).records = [record a]) (items : List α) :
    (sequence f items).ending = .success ∧ (sequence f items).records = items.map record := by
  induction items with
  | nil => exact ⟨rfl, rfl⟩
  | cons a rest ih =>
      obtain ⟨hending, hrecords⟩ := h a
      rw [sequence, andThen_of_success hending, hrecords, ih.2]
      exact ⟨ih.1, rfl⟩

end Output

/-- Asked for addresses of a readable image, a run ends well and prints one record for each, in
order. It starts with the address in full, and what it tells depends on nothing but the image,
the lowest address of the kernel and the address itself. -/
theorem run_addresses {bytes : Bytes} {image : Image} (himage : Image.ofElf bytes = .ok image)
    (kernelStart : Option Address) :
    ∃ told : Address → String,
      (∀ address, Hex.Spells (Hex.padded address) address ∧
        Tells image ⟨kernelStart.getD Config.default.kernelStart⟩ address (told address) ∧
        (told address = "not a kernel address" ↔
          address ≠ 0 ∧ address < kernelStart.getD Config.default.kernelStart)) ∧
      ∀ programName openFile arguments options addresses,
        parse arguments = .ok (.run options) →
        options.kernelStart = kernelStart →
        options.command = .addresses addresses →
        openFile options.file = some bytes →
        (run programName openFile arguments).ending.exitCode = 0 ∧
        (run programName openFile arguments).records =
          addresses.map fun address => Hex.padded address ++ "  " ++ told address := by
  choose told log htells hprint using
    exists_printAddress image ⟨kernelStart.getD Config.default.kernelStart⟩
  refine ⟨told, fun address => ⟨Hex.spells_padded address, htells address, (htells address).eq_iff⟩,
    ?_⟩
  rintro programName openFile arguments options addresses hparse rfl hcommand hopen
  obtain ⟨hending, hrecords⟩ := Output.sequence_of_success
    (fun address => ⟨congrArg Output.ending (hprint address),
      congrArg Output.records (hprint address)⟩) addresses
  rw [run, hparse]
  simp only [hopen, himage, hcommand, answer]
  split
  · exact ⟨congrArg Ending.exitCode hending, hrecords⟩
  · exact ⟨congrArg Ending.exitCode hending, hrecords⟩

/-- A file that is only a header. -/
def bareFile : Bytes := [0x7f, 0x45, 0x4c, 0x46, 2, 1, 1] ++ List.replicate 57 0

theorem text_fresh (address : Address) :
    (Location.fresh address).text = "<unknown>:0: <unknown>+0x0" := by
  have hname : (Bounded.ofBytes Location.unknownName : Bounded 256).text = "<unknown>" := by
    rw [Bounded.text, Bounded.contents_ofBytes]
    decide +kernel
  have hoffset : (Location.fresh address).offset = 0 := UInt64.sub_self address
  rw [Location.text, hoffset]
  simp only [Location.fresh, hname]
  decide +kernel

/-- The file has no debug sections, so all that is known of addresses is whether they lie in the
kernel. -/
theorem bareFile_records :
    (run "symbolizer" (fun _ => some bareFile)
      ["-k", "kernel", "addr", "0", "10", "800000000010"]).records =
      ["0x0000000000000000  <unknown>:0: <unknown>+0x0",
        "0x0000000000000010  not a kernel address",
        "0x0000800000000010  <unknown>:0: <unknown>+0x0  (No matching entry)"] := by
  have himage : Image.ofElf bareFile = .ok .empty := by decide +kernel
  have hparse : parse ["-k", "kernel", "addr", "0", "10", "800000000010"] =
      .ok (.run ⟨"kernel", none, false, .addresses [0, 0x10, 0x800000000010]⟩) := by decide +kernel
  obtain ⟨told, htold, hrun⟩ := run_addresses himage none
  have hnull : told 0 = (Location.fresh 0).text :=
    (htold 0).2.1.unique (.filled (Or.inl rfl)
      (congrArg Traced.start (Engine.resolveAddress_zero _ _ _)))
  have huser : told 0x10 = "not a kernel address" := (htold 0x10).2.2.mpr (by decide)
  have hkernel : told 0x800000000010 =
      (Location.fresh 0x800000000010).text ++ "  (" ++ LookupError.notFound.message ++ ")" := by
    have haddress : (0x800000000010 : Address) ≠ 0 := by decide
    have hstart : Config.default.kernelStart ≤ 0x800000000010 := by decide
    have hunit : (Image.empty.sections.engine.unitForAddress 0x800000000010).answer =
        .error .notFound := by decide +kernel
    have hresult := (Image.empty.sections.engine.resolveAddress_yields_located haddress hstart
      (.fresh 0x800000000010)).start
    rw [Engine.located_eq_error_of_unit hunit] at hresult
    exact (htold 0x800000000010).2.1.unique (.stopped (Or.inr hstart) (Prod.ext hresult rfl))
  obtain ⟨-, hrecords⟩ := hrun "symbolizer" (fun _ => some bareFile) _ _ _ hparse rfl rfl rfl
  rw [hrecords]
  simp only [List.map_cons, List.map_nil, hnull, huser, hkernel, text_fresh]
  decide +kernel

end CommandLine

end Symbolizer
