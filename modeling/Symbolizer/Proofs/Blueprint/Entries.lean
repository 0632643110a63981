import Symbolizer.Proofs.Blueprint.Abbreviations

/-! # Entries of blueprints

A drafted entry is read back with the value of each of its fields. Drafts that are
written one after another are read back in order, each with the offset at which it
came to lie.
-/

namespace Symbolizer

open Dwarf

/-- Blueprints are written in version 4, with offsets of four bytes and addresses of eight. -/
def blueprintEncoding : Encoding := ⟨.dwarf32, 4, .eight⟩

namespace FieldValue

/-- The value is not changed by writing it; offsets are written modulo their width. -/
def Legible : FieldValue → Prop
  | data n => n < 2 ^ 64
  | string text => 0 ∉ text
  | _ => True

/-- What is read where the value was written. -/
def value : FieldValue → Value
  | address a => .address a
  | data n => .constant n
  | flagPresent => .flag true
  | string text => .string text
  | stringOffset offset => .stringOffset (offset % 2 ^ 32)
  | sectionOffset offset => .sectionOffset (offset % 2 ^ 32)
  | unitReference offset => .unitReference (offset % 2 ^ 32)

/-- The form that the code of the value stands for. -/
def formRead : FieldValue → Form
  | address _ => .address
  | data _ => .unsignedData
  | flagPresent => .flagPresent
  | string _ => .string
  | stringOffset _ => .stringOffset
  | sectionOffset _ => .sectionOffset
  | unitReference _ => .unitReference (.fixed 4)

theorem resolve_form (value : FieldValue) (bytes : Bytes) :
    Form.resolve value.form bytes = .ok (value.formRead, bytes) := by
  cases value <;> rw [Form.resolve] <;> rfl

theorem Legible.read_formRead {value : FieldValue} (h : value.Legible) (target : AttributeName) :
    (value.formRead.read blueprintEncoding target).Reads value.encode value.value := by
  cases value with
  | address a => exact (Reader.Reads.address a).map _
  | data n => exact (Reader.Reads.uleb h).map _
  | flagPresent => exact Reader.Reads.pure _
  | string text => exact (Reader.Reads.name h).map _
  | stringOffset offset => exact (Reader.Reads.offset_mod offset).map _
  | sectionOffset offset => exact (Reader.Reads.offset_mod offset).map _
  | unitReference offset => exact (Reader.Reads.word_mod 4 offset).map _

theorem Legible.read {value : FieldValue} (h : value.Legible) (target : AttributeName) :
    (Attribute.read blueprintEncoding ⟨target, value.form, none⟩).Reads value.encode
      ⟨target, value.value⟩ := by
  intro rest
  have hread := (h.read_formRead target).map (Attribute.mk target)
  rw [← hread rest]
  change (Form.resolve value.form (value.encode ++ rest) >>= fun found =>
    (Attribute.mk target <$> found.1.read blueprintEncoding target) found.2) = _
  rw [resolve_form]
  rfl

end FieldValue

namespace EntryDraft

/-- The entry can be written: its fields have codes, and their values can be read back. -/
structure Legible (draft : EntryDraft) : Prop where
  tag : 0 < draft.tag ∧ draft.tag < 2 ^ 16
  field : ∀ field ∈ draft.fields, field.1.Canonical ∧ field.2.Legible

theorem legible_field {target : AttributeName} {value : FieldValue} (htarget : target.Canonical)
    (hvalue : value.Legible) : (target, value).1.Canonical ∧ (target, value).2.Legible :=
  ⟨htarget, hvalue⟩

theorem Legible.layout {draft : EntryDraft} (h : draft.Legible) : draft.layout.Legible where
  tag := h.tag
  field := by
    intro field hfield
    obtain ⟨source, hsource, rfl⟩ := List.mem_map.mp hfield
    exact ⟨(h.field source hsource).1, source.2, rfl⟩

def attributes (draft : EntryDraft) : List Attribute :=
  draft.fields.map fun field => ⟨field.1, field.2.value⟩

/-- The entry that is read at an offset where the draft was written. -/
def entry (draft : EntryDraft) (offset : Nat) : Entry :=
  ⟨offset, draft.tag, ⟨draft.attributes, none⟩⟩

theorem readAll_fields {fields : List (AttributeName × FieldValue)}
    (h : ∀ field ∈ fields, field.2.Legible) (rest : Bytes) :
    Attribute.readAll blueprintEncoding (fields.map fun field => ⟨field.1, field.2.form, none⟩)
        (fields.flatMap (fun field => field.2.encode) ++ rest) =
      (⟨fields.map fun field => ⟨field.1, field.2.value⟩, none⟩, rest) := by
  induction fields with
  | nil => rfl
  | cons field fields ih =>
      have hread := (h field List.mem_cons_self).read field.1
      rw [List.map_cons, List.flatMap_cons, List.append_assoc, Attribute.readAll, hread]
      simp only [ih fun other hother => h other (List.mem_cons_of_mem _ hother)]
      rfl

theorem encode_ne_nil (layouts : List EntryLayout) (draft : EntryDraft) :
    draft.encode layouts ≠ [] := by
  intro hnil
  exact Leb128.encode_ne_nil _ (List.append_eq_nil_iff.mp hnil).1

/-- The entry is read back through the abbreviations of layouts that include its own. -/
theorem Legible.read {draft : EntryDraft} (h : draft.Legible) {layouts : List EntryLayout}
    (hlayout : draft.layout ∈ layouts) (hsize : layouts.length < 2 ^ 32) (offset : Nat) :
    (Entry.read blueprintEncoding (EntryLayout.abbreviations layouts) offset).Reads
      (draft.encode layouts) (some (draft.entry offset)) := by
  intro rest
  have hlt := List.idxOf_lt_length_of_mem hlayout
  have hcode : (Reader.uleb).Reads (Leb128.encode (layouts.idxOf draft.layout + 1)) _ :=
    Reader.Reads.uleb (by omega)
  let abbreviation := draft.layout.abbreviation (layouts.idxOf draft.layout + 1)
  let bytes := draft.fields.flatMap (fun field => field.2.encode) ++ rest
  have hfields : Attribute.readAll blueprintEncoding abbreviation.attributes bytes =
      (⟨draft.attributes, none⟩, rest) := by
    rw [show abbreviation.attributes = _ from List.map_map]
    exact readAll_fields (fun field hfield => (h.field field hfield).2) rest
  rw [encode, List.append_assoc, Entry.read, hcode.bind_append, if_neg (Nat.succ_ne_zero _),
    EntryLayout.find?_abbreviations hlayout]
  change Except.ok (some (Entry.mk offset draft.tag
    (Attribute.readAll blueprintEncoding abbreviation.attributes bytes).1),
    (Attribute.readAll blueprintEncoding abbreviation.attributes bytes).2) = _
  rw [hfields]
  rfl

/-- The drafts, each with the offset at which it comes to lie behind those before it. -/
def laidOut (layouts : List EntryLayout) (offset : Nat) (drafts : List EntryDraft) :
    List (Nat × EntryDraft) :=
  layOut (fun offset draft => offset + (draft.encode layouts).length) offset drafts

/-- Drafts that are written one after another are read back in order. -/
theorem unfolds_laidOut {layouts : List EntryLayout} {drafts : List EntryDraft}
    (hlegible : ∀ draft ∈ drafts, draft.Legible)
    (hlayout : ∀ draft ∈ drafts, draft.layout ∈ layouts) (hsize : layouts.length < 2 ^ 32)
    (offset : Nat) :
    Decoded.Unfolds
      (fun offset =>
        some <$> Entry.read blueprintEncoding (EntryLayout.abbreviations layouts) offset)
      offset (drafts.flatMap (encode layouts))
      ((laidOut layouts offset drafts).map fun placed => some (placed.2.entry placed.1)) := by
  induction drafts generalizing offset with
  | nil => exact Decoded.Unfolds.nil
  | cons draft drafts ih =>
      have hread := (hlegible draft List.mem_cons_self).read
        (hlayout draft List.mem_cons_self) hsize
      apply (Decoded.Unfolds.one ((hread offset).map some) (encode_ne_nil layouts draft)).append
      exact ih (fun other hother => hlegible other (List.mem_cons_of_mem _ hother))
        (fun other hother => hlayout other (List.mem_cons_of_mem _ hother)) _

end EntryDraft

namespace Dwarf.Entry

/-- A zero stands for no entry. -/
theorem reads_zero (encoding : Encoding) (table : List Abbreviation) (offset : Nat) :
    (read encoding table offset).Reads [0] none := by
  intro rest
  rfl

/-- Where reading meets no fault, zeros are left out and all entries are met. -/
theorem readAll_of_unfolds {encoding : Encoding} {table : List Abbreviation} {start : Nat}
    {bytes : Bytes} {items : List (Option Entry)}
    (h : Decoded.Unfolds (fun offset => some <$> read encoding table offset) start bytes items)
    (hfault : ∀ entry ∈ items.filterMap id, entry.attributes.fault = none) :
    readAll encoding table start bytes = ⟨items.filterMap id, none⟩ := by
  have hall : Decoded.flatMapItems (fun entry : Entry => ⟨[entry], entry.attributes.fault⟩) none
      (items.filterMap id) = ⟨(items.filterMap id).flatMap fun entry => [entry], none⟩ := by
    apply Decoded.flatMapItems_eq_of_forall
    intro entry hentry
    rw [hfault entry hentry]
  rw [List.flatMap_singleton'] at hall
  rw [readAll, h.eq]
  exact hall

end Dwarf.Entry

end Symbolizer
