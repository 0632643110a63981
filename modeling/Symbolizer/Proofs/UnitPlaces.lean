import Symbolizer.Proofs.EntryPlaces

/-! # Units where they are met

Headers are met by a walk that goes from each unit to the one behind it, and they are looked
up by an offset. The walk tells each header where it is, and with what it takes up the units
tile the section. So the offset of a unit that is met leads back to the same unit, whatever
its format and version.
-/

namespace Symbolizer.Dwarf

namespace Reader

variable {α β : Type} {bytes rest : Bytes}

theorem length_of_word {count n : Nat} (h : word count bytes = .ok (n, rest)) :
    bytes.length = count + rest.length := by
  obtain ⟨piece, htake, -⟩ := map_eq_ok_iff.mp h
  obtain ⟨hpiece, rfl⟩ := take_eq_ok_iff.mp htake
  rw [List.length_append, hpiece]

theorem length_of_initialLength {field : Format × Nat}
    (h : initialLength bytes = .ok (field, rest)) :
    bytes.length = field.1.lengthSize + rest.length := by
  obtain ⟨length, left, hlength, h⟩ := bind_eq_ok_iff.mp h
  have hfirst := length_of_word hlength
  split at h
  · cases h
    exact hfirst
  split at h
  · obtain ⟨long, last, hlong, h⟩ := bind_eq_ok_iff.mp h
    cases h
    rw [hfirst, length_of_word hlong]
    exact (Nat.add_assoc 4 8 _).symm
  · cases h

/-- A structure behind a length field is read from the piece that the field covers. -/
theorem exists_piece_of_sized {inner : Format → Reader α} {value : α}
    (h : sized inner bytes = .ok (value, rest)) :
    ∃ format piece left, bytes.length = format.lengthSize + piece.length + rest.length ∧
      inner format piece = .ok (value, left) := by
  obtain ⟨⟨format, length⟩, behind, hfield, h⟩ := bind_eq_ok_iff.mp h
  obtain ⟨piece, last, htake, h⟩ := bind_eq_ok_iff.mp h
  obtain ⟨⟨_, left⟩, _, hinner, h⟩ := bind_eq_ok_iff.mp h
  cases h
  obtain ⟨⟨_, _⟩, hpiece, ⟨⟩⟩ := Except.bind_eq_ok_iff.mp hinner
  obtain ⟨-, rfl⟩ := take_eq_ok_iff.mp htake
  refine ⟨format, piece, left, ?_, hpiece⟩
  rw [length_of_initialLength hfield, List.length_append, Nat.add_assoc]

/-- What the reader gives at the end of a piece has the property. -/
def GivesWithin (piece : Bytes) (reader : Reader α) (P : α → Prop) : Prop :=
  ∀ bytes value rest, bytes <:+ piece → reader bytes = .ok (value, rest) → P value

namespace GivesWithin

variable {piece : Bytes} {P : β → Prop}

theorem bind {reader : Reader α} {next : α → Reader β} (h : Local reader)
    (hnext : ∀ a, GivesWithin piece (next a) P) : GivesWithin piece (reader >>= next) P := by
  intro bytes value rest hsuffix hread
  obtain ⟨a, left, hfirst, hsecond⟩ := bind_eq_ok_iff.mp hread
  exact hnext a left value rest ((h.suffix hfirst).trans hsuffix) hsecond

theorem throw_bind (e : DecodeError) (next : α → Reader β) :
    GivesWithin piece (throw e >>= next) P := by
  intro bytes value rest _ hread
  cases hread

theorem remaining_bind {next : Bytes → Reader β}
    (h : ∀ left, left <:+ piece → GivesWithin piece (next left) P) :
    GivesWithin piece (remaining >>= next) P := by
  intro bytes value rest hsuffix hread
  exact h bytes hsuffix [] value rest (List.nil_suffix) hread

theorem pure {value : β} (h : P value) : GivesWithin piece (pure value) P := by
  rintro bytes _ rest _ ⟨⟩
  exact h

end GivesWithin

end Reader

theorem AddressSize.local_read : AddressSize.read.Local := by
  refine Reader.Local.byte.bind fun n => ?_
  split
  · exact .pure _
  · exact .pure _
  · exact .pure _
  · exact .pure _
  · exact .throw _

namespace UnitHeader

theorem local_kindDetails (format : Format) (kind : Nat) : (kindDetails format kind).Local := by
  unfold kindDetails
  split
  · exact .pure _
  · exact .pure _
  · exact (Reader.Local.skip _).bind fun _ => .skip _
  · exact (Reader.Local.skip _).bind fun _ => .skip _
  · exact .skip _
  · exact .skip _
  · exact .throw _

/-- A header states where it was read and how many bytes the unit takes up. -/
theorem of_read {offset : Nat} {bytes rest : Bytes} {header : UnitHeader}
    (h : read offset bytes = .ok (header, rest)) :
    header.offset = offset ∧ 0 < header.unitSize ∧
      bytes.length = header.unitSize + rest.length := by
  obtain ⟨format, piece, left, hlength, h⟩ := Reader.exists_piece_of_sized h
  rw [hlength]
  rw [Reader.get_bind] at h
  suffices hgives : Reader.GivesWithin piece _ (fun header : UnitHeader =>
      header.offset = offset ∧ header.unitSize = format.lengthSize + piece.length) by
    obtain ⟨hoffset, hsize⟩ := hgives piece header left (List.suffix_refl _) h
    have hpos : 0 < format.lengthSize := by cases format <;> decide
    exact ⟨hoffset, by omega, by rw [hsize]⟩
  refine .bind (.word 2) fun version => ?_
  dsimp only
  split
  · exact .throw_bind _ _
  -- Both kinds of header end in the entries, which are what is left of the piece.
  have hend (version : Nat) (details : Nat × AddressSize) : Reader.GivesWithin piece (do
      let entries ← Reader.remaining
      pure ⟨offset, ⟨format, version, details.2⟩, details.1,
        format.lengthSize + (piece.length - entries.length), entries⟩)
      fun header : UnitHeader => header.offset = offset ∧
        header.unitSize = format.lengthSize + piece.length := by
    refine .remaining_bind fun entries hentries => .pure ⟨rfl, ?_⟩
    have hle := hentries.length_le
    rw [unitSize]
    dsimp only
    omega
  split
  · refine .bind .byte fun kind => .bind AddressSize.local_read fun addressSize => ?_
    refine .bind (.word _) fun abbreviations => .bind (local_kindDetails format kind) fun _ => ?_
    exact hend version (abbreviations, addressSize)
  · refine .bind (.word _) fun abbreviations => .bind AddressSize.local_read fun addressSize => ?_
    exact hend version (abbreviations, addressSize)

theorem local_read (offset : Nat) : (read offset).Local := .sized _

variable {info : Bytes} {header : UnitHeader}

/-- A header that is met in its section is the one that its offset leads to. -/
theorem readAt_of_mem_readAll (h : header ∈ (readAll info).items) :
    readAt info header.offset = .ok header := by
  obtain ⟨distance, rest, hdistance, hread⟩ := Decoded.exists_place_of_mem_unfold
    (fun _ _ _ _ hstep => by
      obtain ⟨_, hread, _⟩ := Reader.map_eq_ok_iff.mp hstep
      exact (local_read _).suffix hread) h
  obtain ⟨_, hread, ⟨⟩⟩ := Reader.map_eq_ok_iff.mp hread
  rw [Nat.zero_add] at hread
  obtain ⟨hoffset, -⟩ := of_read hread
  rw [readAt, hoffset, if_neg (Nat.not_lt_of_ge hdistance.le), StateT.run, hread]
  rfl

/-- The units lie one behind the other, the first at an offset and the last up to a limit. -/
def Tile : (start : Nat) → List UnitHeader → (limit : Nat) → Prop
  | start, [], limit => start = limit
  | start, header :: rest, limit =>
    header.offset = start ∧ Tile (start + header.unitSize) rest limit

/-- Units that are read to the end of some bytes fill them. -/
theorem tile_unfold (position : Nat) (bytes : Bytes) :
    (Decoded.unfold (fun offset => some <$> read offset) position bytes).fault = none →
      Tile position (Decoded.unfold (fun offset => some <$> read offset) position bytes).items
        (position + bytes.length) := by
  fun_induction Decoded.unfold (fun offset => some <$> read offset) position bytes with
  | case1 position => exact fun _ => rfl
  | case2 =>
      intro hfault
      cases hfault
  | case3 position bytes _ rest hstep =>
      obtain ⟨_, _, ⟨⟩⟩ := Reader.map_eq_ok_iff.mp hstep
  | case4 position bytes _ header rest hstep hlt ih =>
      obtain ⟨_, hread, ⟨⟩⟩ := Reader.map_eq_ok_iff.mp hstep
      obtain ⟨hoffset, -, hsize⟩ := of_read hread
      intro hfault
      have htile := ih hfault
      rw [hsize, Nat.add_sub_cancel] at htile ⊢
      rw [← Nat.add_assoc]
      exact ⟨hoffset, htile⟩
  | case5 position bytes _ header rest hstep hle =>
      obtain ⟨_, hread, ⟨⟩⟩ := Reader.map_eq_ok_iff.mp hstep
      obtain ⟨-, hpos, hsize⟩ := of_read hread
      omega

theorem tile_readAll (h : (readAll info).fault = none) :
    Tile 0 (readAll info).items info.length := by
  have htile := tile_unfold 0 info h
  rwa [Nat.zero_add] at htile

end UnitHeader

namespace Sections

variable {sections : Sections} {header : UnitHeader} {unit : CompileUnit}

/-- A decoded unit keeps its header, and its line program, if it has one, has a header that can be
decoded as well. -/
theorem header_of_decodeUnit (h : sections.decodeUnit header = .ok unit) : unit.header = header ∧
    sections.checkLineProgram header.encoding.addressSize unit.lineProgram = .ok () := by
  simp only [decodeUnit, Except.bind_eq_ok_iff] at h
  obtain ⟨table, -, root, -, attributes, -, _, hlines, h⟩ := h
  split at h
  · obtain ⟨_, _, h⟩ := Except.bind_eq_ok_iff.mp h
    cases h
    exact ⟨rfl, hlines⟩
  · cases h
    exact ⟨rfl, hlines⟩

/-- A unit that is met in its section is the one that its offset leads to. -/
theorem unitAt_of_mem_units (h : unit ∈ sections.units.items) :
    sections.unitAt unit.header.offset = .ok unit := by
  obtain ⟨header, hheader, hunit⟩ := Decoded.exists_of_mem_flatMapItems h
  have hdecoded := Decoded.mem_ofExcept hunit
  rw [unitAt, (header_of_decodeUnit hdecoded).1, UnitHeader.readAt_of_mem_readAll hheader]
  exact hdecoded

end Sections

end Symbolizer.Dwarf
