import Symbolizer.Proofs.Blueprint.Placement
import Symbolizer.Proofs.Outcomes
import Symbolizer.Proofs.Resolving

/-! # Calls at the end of a unit

Line and function are looked up at the call, but in the unit of the address that the
call returns to. A call that never returns may be the last instruction of its unit;
then the address behind it belongs to another unit, or to none, and the caller is not
found in it.
-/

namespace Symbolizer

theorem callSite_le (address : Address) : callSite address ≤ address := by
  rw [UInt64.le_iff_toNat_le, toNat_callSite]
  omega

namespace Engine

variable {engine : Engine} {address : Address}

/-- A filled location reports what the unit of the address says, as far as names fit. -/
theorem located_reports_iff (file : Bytes) (line : UInt32) (function : Function) :
    (∃ location, engine.located address = .ok location ∧ location.Reports file line function) ↔
      ∃ unit file' line' function', (engine.unitForAddress address).answer = .ok unit ∧
        engine.Attributes unit (callSite address) file' line' function' ∧
        file'.name.take 256 = file.take 256 ∧ line' = line ∧
        function'.name.take 256 = function.name.take 256 ∧ function'.entry = function.entry := by
  constructor
  · rintro ⟨location, hlocated, hreports⟩
    obtain ⟨unit, file', line', function', hunit, hattributes, rfl⟩ :=
      located_eq_ok_iff.mp hlocated
    refine ⟨unit, file', line', function', hunit, hattributes, ?_, hreports.line_eq, ?_,
      hreports.entry_eq⟩
    · rw [← hreports.file_contents]
      exact (Bounded.contents_copyFrom _ _).symm
    · rw [← hreports.function_contents]
      exact (Bounded.contents_copyFrom _ _).symm
  · rintro ⟨unit, file', line', function', hunit, hattributes, hfile, hline, hname, hentry⟩
    refine ⟨_, located_eq_ok_iff.mpr ⟨unit, file', line', function', hunit, hattributes, rfl⟩,
      ⟨?_, hline, ?_, hentry⟩⟩
    · rw [← hfile]
      exact Bounded.contents_copyFrom _ _
    · rw [← hname]
      exact Bounded.contents_copyFrom _ _

end Engine

/-- A call is attributed to its caller where the return address lies in the caller's unit; and
exactly where its unit says of the call what the caller's own unit says. Where the return address
has no unit, nothing is filled. -/
theorem resolveAddress_reports_caller_iff {image : Image} {config : Config} {address : Address}
    (hcall : callLength ≤ address.toNat) (hkernel : config.kernelStart ≤ callSite address)
    {unit : Nat} (hunit : (image.sections.unitForAddress (callSite address)).answer = .ok unit)
    {file : SourceFile} {line : UInt32} {function : Function}
    (hcaller : image.sections.engine.Attributes unit (callSite address) file line function)
    (out : Location) :
    ((image.sections.unitForAddress address).answer =
        (image.sections.unitForAddress (callSite address)).answer →
      ∃ location, (image.resolveAddress config address out).start.1 = .ok location ∧
        location.Reports file.name line function) ∧
    ((∃ location, (image.resolveAddress config address out).start.1 = .ok location ∧
        location.Reports file.name line function) ↔
      ∃ unit' file' line' function',
        (image.sections.unitForAddress address).answer = .ok unit' ∧
        image.sections.engine.Attributes unit' (callSite address) file' line' function' ∧
        file'.name.take 256 = file.name.take 256 ∧ line' = line ∧
        function'.name.take 256 = function.name.take 256 ∧ function'.entry = function.entry) ∧
    ∀ e, (image.sections.unitForAddress address).answer = .error e →
      (image.resolveAddress config address out).start.1 = .error ⟨.fresh address, .lookup e⟩ := by
  have hzero : address ≠ 0 := by
    rintro rfl
    exact absurd hcall (by decide)
  -- It is the return address that is held against the bound, and the call lies below it.
  have hresult := (image.sections.engine.resolveAddress_yields_located hzero
    (UInt64.le_trans hkernel (callSite_le address)) out).start
  rw [Image.resolveAddress, hresult]
  refine ⟨fun hsame => ?_, Engine.located_reports_iff _ _ _,
    fun e he => Engine.located_eq_error_of_unit he⟩
  exact (Engine.located_reports_iff _ _ _).mpr
    ⟨unit, file, line, function, hsame.trans hunit, hcaller, rfl, rfl, rfl, rfl⟩

/-- Two units of one function each, the second right behind the first. -/
def adjacentUnits : Image := Blueprint.image {
  units := [
    ⟨Bytes.ofText "a", [⟨Bytes.ofText "stop", 0x100, 16, [⟨0, 10⟩], true,
      .contiguous⟩], []⟩,
    ⟨Bytes.ofText "b", [⟨Bytes.ofText "next", 0x110, 16, [⟨0, 20⟩], true,
      .contiguous⟩], []⟩]
  symbols := []
  addressIndex := true
  danglingNames := [] }

/-- A call at the end of the first unit returns into the second, where its caller is not known. -/
theorem adjacentUnits_hide_caller :
    (adjacentUnits.sections.unitForAddress (callSite 0x110)).answer = .ok 0 ∧
    adjacentUnits.sections.engine.Attributes 0 (callSite 0x110) ⟨Bytes.ofText "a", 0⟩ 10
      ⟨Bytes.ofText "stop", 0x100⟩ ∧
    ¬∃ location, (adjacentUnits.resolveAddress ⟨0x100⟩ 0x110 (.fresh 0)).start.1 =
        .ok location ∧
      location.Reports (Bytes.ofText "a") 10 ⟨Bytes.ofText "stop", 0x100⟩ := by
  have hunit : (adjacentUnits.sections.unitForAddress (callSite 0x110)).answer =
      .ok 0 := by decide +kernel
  have hcaller : adjacentUnits.sections.engine.Attributes 0 (callSite 0x110)
      ⟨Bytes.ofText "a", 0⟩ 10 ⟨Bytes.ofText "stop", 0x100⟩ :=
    ⟨by decide +kernel, by decide +kernel, by decide +kernel⟩
  refine ⟨hunit, hcaller, ?_⟩
  rw [(resolveAddress_reports_caller_iff (by decide) (by decide) hunit hcaller _).2.1]
  rintro ⟨unit', file', line', function', hunit', hattributes, hfile, -⟩
  have hnext : (adjacentUnits.sections.unitForAddress 0x110).answer = .ok 43 := by decide +kernel
  obtain rfl : unit' = 43 := Except.ok.inj (hunit'.symm.trans hnext)
  have hname : (adjacentUnits.sections.fileForUnit 43).answer = .ok ⟨Bytes.ofText "b", 54⟩ := by
    decide +kernel
  obtain rfl : file' = ⟨Bytes.ofText "b", 54⟩ :=
    Except.ok.inj (hattributes.of_file.symm.trans hname)
  exact absurd hfile (by decide)

end Symbolizer
