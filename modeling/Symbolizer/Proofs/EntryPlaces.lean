import Symbolizer.Dwarf.CompileUnit
import Symbolizer.Proofs.LocalReading

/-! # Entries where they are met

The entries of a unit are met one behind the other, each at an offset of its unit. An
entry that is met can be looked up by that offset, and what is found is the same entry.
-/

namespace Symbolizer.Dwarf

theorem Operand.local_read (format : Format) (operand : Operand) : (operand.read format).Local := by
  cases operand with
  | fixed bytes => exact .word bytes
  | offset => exact .word _
  | uleb => exact .uleb

theorem Form.local_read (encoding : Encoding) (target : AttributeName) (form : Form) :
    (form.read encoding target).Local := by
  cases form with
  | address => exact ((Reader.Local.word _).map _).map _
  | addressIndex operand | absentString operand | unused operand =>
      exact (operand.local_read _).discard.bind fun _ => .pure _
  | data bytes =>
      refine (Reader.Local.word bytes).bind fun n => ?_
      split
      · exact .pure _
      · exact .pure _
  | unsignedData => exact Reader.Local.uleb.map _
  | signedData => exact Reader.Local.sleb.map _
  | flag => exact Reader.Local.byte.map _
  | flagPresent => exact .pure _
  | sectionOffset | stringOffset => exact (Reader.Local.word _).map _
  | string => exact Reader.Local.name.map _
  | unitReference operand => exact (operand.local_read _).map _
  | sectionReference =>
      refine Reader.Local.map ?_ _
      rw [Encoding.sectionReference]
      split
      · exact .word _
      · exact .word _
  | rangeListIndex => exact Reader.Local.uleb.discard.bind fun _ => .pure _
  | block length =>
      exact (length.local_read _).bind fun n => (Reader.Local.skip n).bind fun _ => .pure _

/-- A form that is written in front of its value is read like any other field. -/
theorem Form.local_resolve (code : Nat) : Reader.Local (resolve code) := by
  intro bytes
  fun_induction resolve code bytes with
  | case1 => exact nofun
  | case2 bytes code left hcode ih =>
      intro form rest hread
      obtain ⟨front, rfl, hfront⟩ := Reader.Local.code _ _ _ hcode
      obtain ⟨piece, rfl, hpiece⟩ := ih _ _ hread
      refine ⟨front ++ piece, (List.append_assoc _ _ _).symm, fun more => ?_⟩
      have hnext : Leb128.unsigned 16 (front ++ piece ++ more) = .ok (code, piece ++ more) := by
        rw [List.append_assoc]
        exact hfront _
      rw [resolve, if_pos rfl]
      split
      next e herror => cases herror.symm.trans hnext
      next other rest hother =>
        cases hother.symm.trans hnext
        exact hpiece more
  | case3 => exact nofun
  | case4 code bytes hdirect hplain form hform =>
      rintro _ _ ⟨⟩
      refine ⟨[], rfl, fun more => ?_⟩
      rw [resolve, if_neg hdirect, if_neg hplain, hform]
      rfl
  | case5 => exact nofun

theorem Attribute.local_read (encoding : Encoding) (spec : AttributeSpec) :
    (read encoding spec).Local := by
  rw [read]
  split
  · exact .pure _
  · exact (Form.local_resolve spec.form).bind fun form =>
      (form.local_read encoding spec.name).bind fun value => .pure _

theorem Attribute.readAll_suffix (encoding : Encoding) (specs : List AttributeSpec)
    (bytes : Bytes) : (readAll encoding specs bytes).2 <:+ bytes := by
  induction specs generalizing bytes with
  | nil => exact List.suffix_refl bytes
  | cons spec specs ih =>
      rw [readAll]
      split
      next => exact List.nil_suffix
      next first rest hread =>
        exact (ih rest).trans ((local_read encoding spec).suffix hread)

namespace Entry

variable {encoding : Encoding} {table : List Abbreviation} {offset : Nat} {bytes rest : Bytes}

/-- An entry starts where it is read, and what is left behind it are the last of the bytes. -/
theorem of_read {found : Option Entry}
    (h : read encoding table offset bytes = .ok (found, rest)) :
    rest <:+ bytes ∧ ∀ entry ∈ found, entry.offset = offset := by
  obtain ⟨code, left, hcode, h⟩ := Reader.bind_eq_ok_iff.mp h
  have hleft := Reader.Local.uleb.suffix hcode
  by_cases hzero : code = 0
  · rw [if_pos hzero] at h
    cases h
    exact ⟨hleft, nofun⟩
  · rw [if_neg hzero] at h
    cases hfind : table.find? (·.code = code) with
    | none =>
        rw [hfind] at h
        cases h
    | some abbreviation =>
        rw [hfind] at h
        cases h
        refine ⟨(Attribute.readAll_suffix _ _ left).trans hleft, ?_⟩
        rintro _ ⟨⟩
        rfl

end Entry

/-- Each item has been read at a place in front of the end, from all that lies there. -/
theorem Decoded.exists_place_of_mem_unfold {α : Type} {step : Nat → Reader (Option α)}
    (hsuffix : ∀ position bytes found rest, step position bytes = .ok (found, rest) →
      rest <:+ bytes)
    {position : Nat} {bytes : Bytes} {a : α} (h : a ∈ (unfold step position bytes).items) :
    ∃ distance rest, distance < bytes.length ∧
      step (position + distance) (bytes.drop distance) = .ok (some a, rest) := by
  fun_induction unfold step position bytes with
  | case1 | case2 | case3 => cases h
  | case4 position bytes hne first rest hstep hlt ih =>
      rcases List.mem_cons.mp h with rfl | hrest
      · exact ⟨0, rest, List.length_pos_iff.mpr hne, hstep⟩
      · obtain ⟨distance, last, hdistance, hread⟩ := ih hrest
        have hdrop := List.suffix_iff_eq_drop.mp (hsuffix _ _ _ _ hstep)
        refine ⟨bytes.length - rest.length + distance, last, by omega, ?_⟩
        rw [← List.drop_drop, ← hdrop, ← Nat.add_assoc, hread]
  | case5 position bytes hne first rest hstep =>
      obtain rfl := List.mem_singleton.mp h
      exact ⟨0, rest, List.length_pos_iff.mpr hne, hstep⟩

/-- An entry that is met in its unit is the one that its offset leads to. -/
theorem CompileUnit.entryAt_of_mem_entries {unit : CompileUnit} {entry : Entry}
    (h : entry ∈ unit.entries.items) : unit.entryAt entry.offset = .ok entry := by
  obtain ⟨own, hown, hentry⟩ := Decoded.exists_of_mem_flatMapItems h
  obtain rfl := List.mem_singleton.mp hentry
  obtain ⟨_, hmem, rfl⟩ := List.mem_filterMap.mp hown
  obtain ⟨distance, rest, hdistance, hread⟩ := Decoded.exists_place_of_mem_unfold
    (fun _ _ _ _ hstep => by
      obtain ⟨_, hfound, _⟩ := Reader.map_eq_ok_iff.mp hstep
      exact (Entry.of_read hfound).1) hmem
  obtain ⟨_, hfound, ⟨⟩⟩ := Reader.map_eq_ok_iff.mp hread
  have hoffset := (Entry.of_read hfound).2 entry rfl
  have hinside : ¬(entry.offset < unit.header.size ∨ unit.header.unitSize ≤ entry.offset) := by
    rw [UnitHeader.unitSize]
    omega
  rw [entryAt]
  simp only [hinside, if_false]
  have hplace : entry.offset - unit.header.size = distance := by omega
  rw [hplace, hoffset, StateT.run, hfound]
  rfl

end Symbolizer.Dwarf
