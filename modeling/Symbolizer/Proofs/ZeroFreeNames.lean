import Symbolizer.Proofs.FunctionEntries
import Symbolizer.Proofs.LocalReading
import Symbolizer.Proofs.UnitScan

/-! # Names without zero bytes

A name is read up to the zero byte that ends it, wherever it stands: in an entry itself, in
the section of strings, in the index of names or among the names of symbols. So no name
that is decoded holds a zero byte, however many references it was found through.
-/

namespace Symbolizer

theorem SymbolNames.zero_notMem_nameAt {names : SymbolNames} {offset : Nat} {name : Bytes}
    (h : names.nameAt offset = some name) : 0 ∉ name := by
  cases names with
  | table bytes | memory bytes =>
      obtain ⟨⟨found, rest⟩, hsplit, rfl⟩ := Option.map_eq_some_iff.mp h
      exact (Bytes.splitZero_eq_some hsplit).1

theorem SymbolTable.zero_notMem_name {table : SymbolTable} {symbol : Symbol}
    (h : symbol ∈ table.functions) : 0 ∉ symbol.name := by
  obtain ⟨record, _, hsymbol⟩ := List.mem_filterMap.mp h
  rw [function?] at hsymbol
  split at hsymbol
  · obtain ⟨name, hname, rfl⟩ := Option.map_eq_some_iff.mp hsymbol
    exact SymbolNames.zero_notMem_nameAt hname
  · cases hsymbol

namespace Dwarf

/-- Every value that the reader gives has the property. -/
def Reader.Ensures {α : Type} (reader : Reader α) (P : α → Prop) : Prop :=
  ∀ bytes value rest, reader bytes = .ok (value, rest) → P value

namespace Reader.Ensures

variable {α β : Type} {P : α → Prop} {Q : β → Prop}

theorem pure {value : α} (h : P value) : Ensures (pure value) P := by
  intro bytes other rest hread
  cases hread
  exact h

theorem throw (e : DecodeError) : Ensures (throw e) P := by
  intro bytes value rest hread
  cases hread

theorem bind {reader : Reader α} {next : α → Reader β} (h : reader.Ensures P)
    (hnext : ∀ a, P a → (next a).Ensures Q) : (reader >>= next).Ensures Q := by
  intro bytes value rest hread
  obtain ⟨⟨a, left⟩, hfirst, hsecond⟩ := Except.bind_eq_ok_iff.mp hread
  exact hnext a (h bytes a left hfirst) left value rest hsecond

/-- What comes first has no part in the property. -/
theorem behind {reader : Reader α} {next : α → Reader β} (hnext : ∀ a, (next a).Ensures Q) :
    (reader >>= next).Ensures Q :=
  bind (P := fun _ => True) (fun _ _ _ _ => trivial) fun a _ => hnext a

theorem map {reader : Reader α} {f : α → β} (h : reader.Ensures fun a => Q (f a)) :
    (f <$> reader).Ensures Q := by
  intro bytes value rest hread
  obtain ⟨a, hfirst, rfl⟩ := Reader.map_eq_ok_iff.mp hread
  exact h bytes a rest hfirst

theorem of_forall {reader : Reader α} (h : ∀ a, P a) : reader.Ensures P :=
  fun _ value _ _ => h value

theorem name : Reader.name.Ensures fun text => 0 ∉ text := by
  intro bytes text rest hread
  rw [Reader.name] at hread
  split at hread
  next found hsplit =>
    cases hread
    exact (Bytes.splitZero_eq_some hsplit).1
  next => cases hread

end Reader.Ensures

namespace Decoded

variable {α : Type} {step : Nat → Reader (Option α)}

/-- Each item of a sequence has been given by the reader. -/
theorem exists_of_mem_unfold {position : Nat} {bytes : Bytes} {a : α}
    (h : a ∈ (unfold step position bytes).items) :
    ∃ place piece rest, step place piece = .ok (some a, rest) := by
  fun_induction unfold step position bytes with
  | case1 | case2 | case3 => cases h
  | case4 position bytes _ first rest hstep _ ih =>
      rcases List.mem_cons.mp h with rfl | hrest
      · exact ⟨position, bytes, rest, hstep⟩
      · exact ih hrest
  | case5 position bytes _ first rest hstep =>
      obtain rfl := List.mem_singleton.mp h
      exact ⟨position, bytes, rest, hstep⟩

end Decoded

/-- A text in the value holds no zero byte. -/
def Value.ZeroFree : Value → Prop
  | .string text => 0 ∉ text
  | _ => True

def Entry.ZeroFree (entry : Entry) : Prop := ∀ a ∈ entry.attributes.items, a.value.ZeroFree

theorem Value.zeroFree_ofInt (i : Int) : (ofInt i).ZeroFree := by
  cases i <;> trivial

theorem Form.ensures_read (encoding : Encoding) (target : AttributeName) (form : Form) :
    (form.read encoding target).Ensures Value.ZeroFree := by
  cases form with
  | string => exact .map (Q := Value.ZeroFree) Reader.Ensures.name
  | address | unsignedData | flag | sectionOffset | stringOffset | unitReference
  | sectionReference => exact .map (.of_forall fun _ => trivial)
  | signedData => exact .map (.of_forall Value.zeroFree_ofInt)
  | flagPresent => exact .pure trivial
  | data bytes =>
      refine .behind fun n => ?_
      split
      · exact .pure trivial
      · exact .pure trivial
  | addressIndex | absentString | rangeListIndex | unused =>
      exact .behind fun _ => .pure trivial
  | block => exact .behind fun _ => .behind fun _ => .pure trivial

namespace Attribute

theorem ensures_read (encoding : Encoding) (spec : AttributeSpec) :
    (read encoding spec).Ensures fun a => a.value.ZeroFree := by
  rw [read]
  split
  · exact .pure (Value.zeroFree_ofInt _)
  · exact .behind fun form =>
      (form.ensures_read encoding spec.name).bind fun value hvalue => .pure hvalue

theorem zeroFree_of_mem_readAll {encoding : Encoding} {specs : List AttributeSpec} {bytes : Bytes}
    {a : Attribute} (h : a ∈ (readAll encoding specs bytes).1.items) : a.value.ZeroFree := by
  induction specs generalizing bytes with
  | nil => cases h
  | cons spec specs ih =>
      rw [readAll] at h
      split at h
      · cases h
      · rename_i first rest hread
        rcases List.mem_cons.mp h with rfl | hothers
        · exact ensures_read encoding spec bytes _ _ hread
        · exact ih hothers

theorem mem_of_last {target : AttributeName} {attributes : List Attribute} {value : Value}
    (h : last target attributes = some value) : ∃ a ∈ attributes, a.value = value := by
  obtain ⟨a, hlast, rfl⟩ := Option.map_eq_some_iff.mp h
  exact ⟨a, (List.mem_filter.mp (List.mem_of_getLast? hlast)).1, rfl⟩

end Attribute

namespace Entry

theorem ensures_read (encoding : Encoding) (table : List Abbreviation) (offset : Nat) :
    (read encoding table offset).Ensures fun read => ∀ entry ∈ read, entry.ZeroFree := by
  refine .behind fun code => ?_
  split
  · exact .pure nofun
  split
  · exact .throw _
  · refine .behind fun bytes => .behind fun _ => .pure ?_
    rintro entry ⟨⟩ a ha
    exact Attribute.zeroFree_of_mem_readAll ha

theorem zeroFree_of_mem_readAll {encoding : Encoding} {table : List Abbreviation} {start : Nat}
    {bytes : Bytes} {entry : Entry} (h : entry ∈ (readAll encoding table start bytes).items) :
    entry.ZeroFree := by
  obtain ⟨found, hfound, hentry⟩ := Decoded.exists_of_mem_flatMapItems h
  obtain rfl := List.mem_singleton.mp hentry
  obtain ⟨read, hmem, hsome⟩ := List.mem_filterMap.mp hfound
  obtain ⟨place, piece, rest, hread⟩ := Decoded.exists_of_mem_unfold hmem
  obtain ⟨_, hown, ⟨⟩⟩ := Reader.map_eq_ok_iff.mp hread
  exact ensures_read encoding table place piece _ rest hown entry hsome

end Entry

theorem CompileUnit.zeroFree_of_entryAt {unit : CompileUnit} {offset : Nat} {entry : Entry}
    (h : unit.entryAt offset = .ok entry) : entry.ZeroFree := by
  rw [entryAt] at h
  split at h
  · cases h
  obtain ⟨⟨found, rest⟩, hread, h⟩ := Except.bind_eq_ok_iff.mp h
  have hfound := Entry.ensures_read _ _ _ _ _ _ hread
  cases found with
  | none => cases h
  | some own =>
      cases h
      exact hfound entry rfl

namespace Sections

variable {sections : Sections} {unit : CompileUnit} {name : Bytes}

theorem zero_notMem_string {value : Value} (hvalue : value.ZeroFree)
    (h : sections.string value = .ok name) : 0 ∉ name := by
  unfold string at h
  split at h
  next => cases h; exact hvalue
  next =>
    split at h
    next hsplit =>
      cases h
      exact (Bytes.splitZero_eq_some hsplit).1
    next => cases h
  next => cases h
  next => cases h

theorem zero_notMem_unitName {header : UnitHeader} (h : sections.decodeUnit header = .ok unit)
    (hname : unit.name = some name) : 0 ∉ name := by
  obtain ⟨hroot, -, hstated⟩ := root_of_decodeUnit h
  rw [hstated] at hname
  obtain ⟨value, hlast, hstring⟩ := Option.bind_eq_some_iff.mp hname
  obtain ⟨a, ha, rfl⟩ := Attribute.mem_of_last hlast
  exact zero_notMem_string (Entry.zeroFree_of_mem_readAll hroot a ha)
    (Except.toOption_eq_some_iff.mp hstring)

theorem zeroFree_of_target {reference : Value} {other : CompileUnit} {entry : Entry}
    (h : sections.target unit reference = .ok (other, entry)) : entry.ZeroFree := by
  unfold target at h
  split at h
  next offset =>
    obtain ⟨found, hfound, heq⟩ := Except.bind_eq_ok_iff.mp h
    cases heq
    exact CompileUnit.zeroFree_of_entryAt (Except.mapError_eq_ok_iff.mp hfound)
  next offset =>
    obtain ⟨containing, _, h⟩ := Except.bind_eq_ok_iff.mp h
    dsimp only at h
    split at h
    · cases h
    · obtain ⟨found, hfound, heq⟩ := Except.bind_eq_ok_iff.mp h
      cases heq
      exact CompileUnit.zeroFree_of_entryAt (Except.mapError_eq_ok_iff.mp hfound)
  next => cases h

section Following

variable {follow : Value → Except LookupError (Option Bytes)}
  (hfollow : ∀ reference name, follow reference = .ok (some name) → 0 ∉ name)
include hfollow

theorem zero_notMem_firstName {references : List Value}
    (h : firstName follow references = .ok (some name)) : 0 ∉ name := by
  induction references with
  | nil => cases h
  | cons reference rest ih =>
      obtain ⟨name?, hreference, h⟩ := Except.bind_eq_ok_iff.mp h
      cases name? with
      | none => exact ih h
      | some found =>
          cases h
          exact hfollow reference name hreference

/-- An entry has its name from a string of its own or through a reference. -/
theorem zero_notMem_nameVia {entry : Entry} (hentry : entry.ZeroFree)
    (h : sections.nameVia follow entry = .ok (some name)) : 0 ∉ name := by
  unfold nameVia at h
  split at h
  next own hfound =>
    obtain ⟨text, htext, heq⟩ := Except.bind_eq_ok_iff.mp ((map_eq_pure_bind _ _).symm.trans h)
    cases heq
    exact zero_notMem_string (hentry own (List.mem_of_find?_eq_some hfound))
      (Except.mapError_eq_ok_iff.mp htext)
  next =>
    obtain ⟨attributes, _, hfirst⟩ := Except.bind_eq_ok_iff.mp h
    exact zero_notMem_firstName hfollow hfirst

end Following

/-- A chain of references, of whatever length, leads to a name as the entry at its end has it. -/
theorem zero_notMem_referencedName {hops : Nat} {reference : Value}
    (h : sections.referencedName hops unit reference = .ok (some name)) : 0 ∉ name := by
  induction hops generalizing unit reference name with
  | zero => cases h
  | succ hops ih =>
      obtain ⟨⟨other, entry⟩, htarget, h⟩ := Except.bind_eq_ok_iff.mp h
      exact zero_notMem_nameVia (fun _ _ hname => ih hname) (zeroFree_of_target htarget) h

theorem zero_notMem_entryName {offset : Nat} {entry : Entry}
    (hentry : unit.entryAt offset = .ok entry)
    (h : sections.entryName unit entry = .ok (some name)) : 0 ∉ name :=
  zero_notMem_nameVia (fun _ _ hname => zero_notMem_referencedName hname)
    (CompileUnit.zeroFree_of_entryAt hentry) h

theorem zero_notMem_subprogramName {subprogram : Subprogram}
    (hmem : subprogram ∈ unit.subprograms.items)
    (h : sections.subprogramName unit subprogram = .ok (some name)) : 0 ∉ name := by
  obtain ⟨entry, hentry, hown⟩ := Subprogram.exists_entry_of_mem_subprograms hmem
  obtain ⟨_, rfl⟩ := Subprogram.eq_of_ofEntry hown
  unfold subprogramName at h
  split at h
  next value hlast =>
    obtain ⟨text, htext, heq⟩ := Except.bind_eq_ok_iff.mp ((map_eq_pure_bind _ _).symm.trans h)
    cases heq
    obtain ⟨a, ha, rfl⟩ := Attribute.mem_of_last hlast
    exact zero_notMem_string (Entry.zeroFree_of_mem_readAll hentry a ha)
      (Except.mapError_eq_ok_iff.mp htext)
  next => exact zero_notMem_firstName (fun _ _ hname => zero_notMem_referencedName hname) h

theorem zero_notMem_fileForUnit {offset : Nat} {file : SourceFile}
    (h : (sections.fileForUnit offset).answer = .ok file) : 0 ∉ file.name := by
  obtain ⟨unit, hunit, h⟩ := Lookup.answer_bind_eq_ok_iff.mp h
  obtain ⟨header, _, hdecoded⟩ :=
    Except.bind_eq_ok_iff.mp (Lookup.answer_decode_eq_ok_iff.mp hunit)
  split at h
  next => cases h
  next => cases h
  next name _ hname _ =>
    cases h
    exact zero_notMem_unitName hdecoded hname

theorem zero_notMem_functionForAddress {address : Address} {offset : Nat} {function : Function}
    (h : (sections.functionForAddress address offset).answer = .ok function) :
    0 ∉ function.name := by
  obtain ⟨_, _, _, _, hmem, hname, _⟩ := exists_of_functionForAddress h
  exact zero_notMem_subprogramName hmem hname

theorem zero_notMem_indexedName {indexed : IndexedName}
    (h : indexed ∈ sections.indexedNames.items) : 0 ∉ indexed.name := by
  obtain ⟨set, _, hindexed⟩ := Decoded.exists_of_mem_flatMapItems h
  obtain ⟨_, piece, rest, hread⟩ := Decoded.exists_of_mem_unfold hindexed
  have hensures : set.readName.Ensures fun indexed? => ∀ own ∈ indexed?, 0 ∉ own.name := by
    refine .behind fun entry => ?_
    split
    · exact .pure nofun
    · refine Reader.Ensures.name.bind fun name hname => .pure ?_
      rintro _ ⟨⟩
      exact hname
  exact hensures piece _ rest hread indexed rfl

end Sections

end Dwarf

/-- Wherever a name is decoded from the image, it holds no zero byte. -/
structure Image.NamesZeroFree (image : Image) : Prop where
  files : ∀ unit file, (image.sections.fileForUnit unit).answer = .ok file → 0 ∉ file.name
  functions : ∀ address unit function,
    (image.sections.functionForAddress address unit).answer = .ok function → 0 ∉ function.name
  entries : ∀ (unit : Dwarf.CompileUnit) offset entry, unit.entryAt offset = .ok entry →
    ∀ name, image.sections.entryName unit entry = .ok (some name) → 0 ∉ name
  references : ∀ hops unit reference name,
    image.sections.referencedName hops unit reference = .ok (some name) → 0 ∉ name
  subprograms : ∀ unit : Dwarf.CompileUnit, ∀ subprogram ∈ unit.subprograms.items,
    ∀ name, image.sections.subprogramName unit subprogram = .ok (some name) → 0 ∉ name
  indexed : ∀ indexed ∈ image.sections.indexedNames.items, 0 ∉ indexed.name
  symbols : ∀ symbol ∈ image.symbolTable.functions, 0 ∉ symbol.name

theorem Image.namesZeroFree (image : Image) : image.NamesZeroFree where
  files _ _ := Dwarf.Sections.zero_notMem_fileForUnit
  functions _ _ _ := Dwarf.Sections.zero_notMem_functionForAddress
  entries _ _ _ hentry _ := Dwarf.Sections.zero_notMem_entryName hentry
  references _ _ _ _ := Dwarf.Sections.zero_notMem_referencedName
  subprograms _ _ hmem _ := Dwarf.Sections.zero_notMem_subprogramName hmem
  indexed _ := Dwarf.Sections.zero_notMem_indexedName
  symbols _ := SymbolTable.zero_notMem_name

end Symbolizer
