import Symbolizer.Dwarf.Reference
import Symbolizer.Proofs.UnitPlaces

/-! # References across units

A reference may count from the start of its own unit or from the start of the section. The
second kind is resolved by looking for the unit whose bytes cover the offset. Units do not
overlap, so this is the unit that holds the entry, and from there on the two kinds of
references are followed alike, whatever unit the second one stands in.
-/

namespace Symbolizer.Dwarf

namespace UnitHeader

variable {info : Bytes} {header : UnitHeader} {offset : Nat}

theorem covers_iff : header.covers offset = true ↔
    header.offset ≤ offset ∧ offset < header.offset + header.unitSize := by
  rw [covers, Bool.and_eq_true, decide_eq_true_iff, decide_eq_true_iff]

/-- A walk over headers meets none in front of where it starts. -/
theorem le_offset_of_mem_unfold {position : Nat} {bytes : Bytes}
    (h : header ∈ (Decoded.unfold (fun offset => some <$> read offset) position bytes).items) :
    position ≤ header.offset := by
  obtain ⟨distance, rest, -, hread⟩ := Decoded.exists_place_of_mem_unfold
    (fun _ _ _ _ hstep => by
      obtain ⟨_, hread, _⟩ := Reader.map_eq_ok_iff.mp hstep
      exact (local_read _).suffix hread) h
  obtain ⟨_, hread, ⟨⟩⟩ := Reader.map_eq_ok_iff.mp hread
  rw [(of_read hread).1]
  exact Nat.le_add_right _ _

/-- Of all units that are met only one covers an offset. -/
theorem find?_covers_unfold {position : Nat} {bytes : Bytes}
    (h : header ∈ (Decoded.unfold (fun offset => some <$> read offset) position bytes).items)
    (hcovers : header.covers offset = true) :
    (Decoded.unfold (fun offset => some <$> read offset) position bytes).items.find?
      (·.covers offset) = some header := by
  fun_induction Decoded.unfold (fun offset => some <$> read offset) position bytes with
  | case1 | case2 | case3 => cases h
  | case4 position bytes hne first rest hstep hlt ih =>
      rcases List.mem_cons.mp h with rfl | hrest
      · exact List.find?_cons_of_pos hcovers
      · obtain ⟨_, hread, ⟨⟩⟩ := Reader.map_eq_ok_iff.mp hstep
        obtain ⟨hfirst, -, hsize⟩ := of_read hread
        have hbehind := le_offset_of_mem_unfold hrest
        have hbefore : ¬first.covers offset = true := by
          rw [covers_iff] at hcovers ⊢
          omega
        rw [← ih hrest]
        exact List.find?_cons_of_neg hbefore
  | case5 position bytes hne first rest hstep hle =>
      obtain rfl := List.mem_singleton.mp h
      exact List.find?_cons_of_pos hcovers

theorem find?_covers (h : header ∈ (readAll info).items) (hcovers : header.covers offset = true) :
    (readAll info).items.find? (·.covers offset) = some header :=
  find?_covers_unfold h hcovers

end UnitHeader

namespace Sections

variable {sections : Sections} {header : UnitHeader} {unit : CompileUnit} {offset : Nat}

theorem unitContaining_of_covers (h : header ∈ (UnitHeader.readAll sections.info).items)
    (hunit : sections.decodeUnit header = .ok unit) (hcovers : header.covers offset = true) :
    sections.unitContaining offset = .ok unit := by
  rw [unitContaining, UnitHeader.find?_covers h hcovers]
  exact Except.mapError_eq_ok_iff.mpr hunit

/-- Counted from the start of the section, the offset of an entry leads to the same unit, and in
it to the same entry, or to the same fault. -/
theorem target_sectionReference (h : header ∈ (UnitHeader.readAll sections.info).items)
    (hunit : sections.decodeUnit header = .ok unit) (hfirst : header.size ≤ offset)
    (hlast : offset < header.unitSize) (other : CompileUnit) :
    sections.target other (.sectionReference (header.offset + offset)) =
      sections.target unit (.unitReference offset) := by
  have hcovers : header.covers (header.offset + offset) = true :=
    UnitHeader.covers_iff.mpr ⟨Nat.le_add_right _ _, Nat.add_lt_add_left hlast _⟩
  obtain ⟨rfl, -⟩ := header_of_decodeUnit hunit
  have hbehind : ¬unit.header.offset + offset < unit.header.offset + unit.header.size := by omega
  rw [target, target, unitContaining_of_covers h hunit hcovers, Except.ok_bind]
  simp only [if_neg hbehind, Nat.add_sub_cancel_left]

/-- A reference to an offset among the entries of a unit leads to the same entry whether it counts
from the start of the unit and is followed there, or from the start of the section and is followed
from any unit. So it comes to the same name, or none, or error, however many references may still
be followed. -/
theorem references_agree_across_units (sections : Sections) {header : UnitHeader}
    {unit : CompileUnit} (h : header ∈ (UnitHeader.readAll sections.info).items)
    (hunit : sections.decodeUnit header = .ok unit) {offset : Nat} (hfirst : header.size ≤ offset)
    (hlast : offset < header.unitSize) (other : CompileUnit) :
    sections.target other (.sectionReference (header.offset + offset)) =
      sections.target unit (.unitReference offset) ∧
    ∀ hops, sections.referencedName hops other (.sectionReference (header.offset + offset)) =
      sections.referencedName hops unit (.unitReference offset) := by
  have htarget := target_sectionReference h hunit hfirst hlast other
  refine ⟨htarget, fun hops => ?_⟩
  cases hops with
  | zero => rfl
  | succ hops => rw [referencedName, referencedName, htarget]

/-- A unit whose only entry has a name of one letter. -/
def letterUnit (offset : Nat) (encoding : Encoding) (size : Nat) (letter : UInt8) :
    CompileUnit where
  header := ⟨offset, encoding, 0, size, [1, letter, 0]⟩
  table := [⟨1, 0x11, false, [⟨.name, 0x08, none⟩]⟩]
  root := ⟨size, 0x11, ⟨[⟨.name, .string [letter]⟩], none⟩⟩
  name := some [letter]
  lineProgram := none

def oldUnit : CompileUnit := letterUnit 0 ⟨.dwarf32, 4, .eight⟩ 11 97

def wideUnit : CompileUnit := letterUnit 14 ⟨.dwarf64, 5, .eight⟩ 24 98

/-- Sections that hold two units of different formats and versions, one right behind the other. -/
def mixedUnits : Sections :=
  { Sections.empty with
    abbreviations := [1, 0x11, 0, 0x03, 0x08, 0, 0, 0]
    info :=
      Bytes.sized ([4, 0, 0, 0, 0, 0, 8] ++ oldUnit.header.entries) ++
      ([0xff, 0xff, 0xff, 0xff] ++ Bytes.ofNat 8 15 ++ [5, 0, 1, 8] ++ Bytes.ofNat 8 0 ++
        wideUnit.header.entries) }

/-- From the first unit, the first offset among the entries of the second leads to the name there,
and the last one, where no entry starts, to the same error as in the second unit. -/
theorem mixedUnits_references :
    mixedUnits.referencedName 4 oldUnit (.sectionReference 38) = .ok (some [98]) ∧
    mixedUnits.referencedName 4 wideUnit (.unitReference 24) = .ok (some [98]) ∧
    mixedUnits.referencedName 4 oldUnit (.sectionReference 40) = .error (.format .noEntry) ∧
    mixedUnits.referencedName 4 wideUnit (.unitReference 26) = .error (.format .noEntry) := by
  have hheaders : UnitHeader.readAll mixedUnits.info =
      ⟨[oldUnit.header, wideUnit.header], none⟩ := by decide +kernel
  have hmem : wideUnit.header ∈ (UnitHeader.readAll mixedUnits.info).items := by
    rw [hheaders]
    exact List.mem_cons_of_mem _ List.mem_cons_self
  have hunit : mixedUnits.decodeUnit wideUnit.header = .ok wideUnit := by decide +kernel
  have hname : mixedUnits.referencedName 4 wideUnit (.unitReference 24) = .ok (some [98]) := by
    decide +kernel
  have hnone : mixedUnits.referencedName 4 wideUnit (.unitReference 26) =
      .error (.format .noEntry) := by decide +kernel
  obtain ⟨-, hstart⟩ := references_agree_across_units mixedUnits hmem hunit
    (by decide : wideUnit.header.size ≤ 24) (by decide) oldUnit
  obtain ⟨-, hend⟩ := references_agree_across_units mixedUnits hmem hunit
    (by decide : wideUnit.header.size ≤ 26) (by decide) oldUnit
  exact ⟨(hstart 4).trans hname, hname, (hend 4).trans hnone, hnone⟩

end Sections

end Symbolizer.Dwarf
