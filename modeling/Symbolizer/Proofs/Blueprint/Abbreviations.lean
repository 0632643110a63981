import Symbolizer.Blueprint.EntryCode
import Symbolizer.Proofs.Sequences

/-! # Abbreviations of blueprints

A table of layouts is read back as abbreviations with codes from one on. The code of a
layout leads to its abbreviation.
-/

namespace Symbolizer

open Dwarf

/-- The attribute is the one that its code stands for. -/
def Dwarf.AttributeName.Canonical (target : AttributeName) : Prop :=
  .ofCode target.code = target ∧ 0 < target.code ∧ target.code < 2 ^ 16

instance (target : AttributeName) : Decidable target.Canonical :=
  inferInstanceAs (Decidable (_ ∧ _ ∧ _))

theorem Dwarf.Leb128.encode_ne_nil (n : Nat) : encode n ≠ [] := by
  rw [encode]
  split <;> exact List.cons_ne_nil _ _

namespace FieldValue

theorem form_pos (value : FieldValue) : 0 < value.form := by
  cases value <;> simp [form]

theorem form_lt (value : FieldValue) : value.form < 2 ^ 16 := by
  cases value <;> simp [form]

theorem form_ne_implicitConstantForm (value : FieldValue) :
    value.form ≠ implicitConstantForm := by
  cases value <;> simp [form, implicitConstantForm]

end FieldValue

namespace EntryLayout

/-- The layout can be written in an abbreviation. -/
structure Legible (layout : EntryLayout) : Prop where
  tag : 0 < layout.tag ∧ layout.tag < 2 ^ 16
  field : ∀ field ∈ layout.fields,
    field.1.Canonical ∧ ∃ value : FieldValue, field.2 = value.form

/-- What the layout says under a code. -/
def abbreviation (layout : EntryLayout) (code : Nat) : Abbreviation :=
  ⟨code, layout.tag, layout.hasChildren, layout.fields.map fun field => ⟨field.1, field.2, none⟩⟩

def abbreviationsFrom : (code : Nat) → List EntryLayout → List Abbreviation
  | _, [] => []
  | code, layout :: rest => layout.abbreviation code :: abbreviationsFrom (code + 1) rest

def abbreviations (layouts : List EntryLayout) : List Abbreviation := abbreviationsFrom 1 layouts

theorem read_field {target : AttributeName} (h : target.Canonical) (value : FieldValue) :
    AttributeSpec.read.Reads (Leb128.encode target.code ++ Leb128.encode value.form)
      (some ⟨target, value.form, none⟩) := by
  obtain ⟨hcode, hpos, hlt⟩ := h
  apply (Reader.Reads.code hlt).bind
  apply (Reader.Reads.code value.form_lt).bind_nil
  rw [if_neg (Nat.ne_of_gt hpos), if_neg (Nat.ne_of_gt value.form_pos),
    if_neg value.form_ne_implicitConstantForm, hcode]
  exact Reader.Reads.pure _

/-- A pair of zeros ends the fields. -/
theorem read_end : AttributeSpec.read.Reads [0, 0] none := by
  intro rest
  rfl

theorem read_childrenFlag (hasChildren : Bool) :
    Abbreviation.childrenFlag.Reads [if hasChildren then 1 else 0] hasChildren := by
  intro rest
  cases hasChildren <;> rfl

theorem Legible.read {layout : EntryLayout} (h : layout.Legible) {code : Nat} (hpos : 0 < code)
    (hlt : code < 2 ^ 64) :
    Abbreviation.read.Reads (layout.encode code) (some (layout.abbreviation code)) := by
  have hfields : Reader.Reads (Reader.many AttributeSpec.read)
      (layout.fields.flatMap (fun field =>
        Leb128.encode field.1.code ++ Leb128.encode field.2) ++ [0, 0])
      (layout.fields.map fun field => ⟨field.1, field.2, none⟩) := by
    apply Reader.many_append _ read_end
    intro field hfield
    obtain ⟨hcanonical, value, hvalue⟩ := h.field field hfield
    rw [hvalue]
    refine ⟨read_field hcanonical value, fun hnil => ?_⟩
    exact Leb128.encode_ne_nil _ (List.append_eq_nil_iff.mp hnil).1
  rw [encode, List.append_assoc, List.append_assoc, List.append_assoc]
  apply (Reader.Reads.uleb hlt).bind
  rw [if_neg (Nat.ne_of_gt hpos)]
  apply (Reader.Reads.code h.tag.2).bind
  rw [if_neg (Nat.ne_of_gt h.tag.1)]
  apply (read_childrenFlag _).bind
  exact hfields.bind_nil (Reader.Reads.pure _)

theorem encode_ne_nil (layout : EntryLayout) (code : Nat) : layout.encode code ≠ [] := by
  rw [encode, List.append_assoc]
  exact List.append_ne_nil_of_right_ne_nil _ (List.append_ne_nil_of_right_ne_nil _
    (List.cons_ne_nil _ _))

theorem length_le_length_encodeFrom (layouts : List EntryLayout) (code : Nat) :
    layouts.length < (encodeFrom code layouts).length := by
  induction layouts generalizing code with
  | nil => exact Nat.zero_lt_one
  | cons layout rest ih =>
      have hpos := List.length_pos_iff.mpr (layout.encode_ne_nil code)
      have hrest := ih (code + 1)
      rw [encodeFrom, List.length_append, List.length_cons]
      omega

theorem unfold_encodeFrom {layouts : List EntryLayout} (h : ∀ layout ∈ layouts, layout.Legible)
    {code : Nat} (hpos : 0 < code) (hlt : code + layouts.length < 2 ^ 64) (position : Nat)
    (rest : Bytes) :
    Decoded.unfold (fun _ => Abbreviation.read) position (encodeFrom code layouts ++ rest) =
      ⟨abbreviationsFrom code layouts, none⟩ := by
  induction layouts generalizing code position with
  | nil =>
      have hstop : Abbreviation.read (0 :: rest) = .ok (none, rest) := rfl
      exact Decoded.Unfolds.nil.eq_of_stop hstop
  | cons layout layouts ih =>
      rw [List.length_cons] at hlt
      have hread := (h layout List.mem_cons_self).read hpos (by omega)
      have hone : Decoded.Unfolds (fun _ => Abbreviation.read) position (layout.encode code)
        [layout.abbreviation code] := .one hread (layout.encode_ne_nil code)
      rw [encodeFrom, List.append_assoc, hone,
        ih (fun other hother => h other (List.mem_cons_of_mem _ hother)) (by omega) (by omega)]
      rfl

theorem map_code_abbreviationsFrom (layouts : List EntryLayout) (code : Nat) :
    (abbreviationsFrom code layouts).map Abbreviation.code =
      List.range' code layouts.length := by
  induction layouts generalizing code with
  | nil => rfl
  | cons layout layouts ih =>
      rw [abbreviationsFrom, List.map_cons, ih]
      rfl

/-- A table is read back from where it was written. -/
theorem table_encodeTable {layouts : List EntryLayout} (h : ∀ layout ∈ layouts, layout.Legible)
    {contents : Bytes} {offset : Nat} (hlies : LiesAt offset (encodeTable layouts) contents)
    (hsize : contents.length < 2 ^ 32) :
    Abbreviation.table contents offset = .ok (abbreviations layouts) := by
  have hlength := length_le_length_encodeFrom layouts 1
  have hle := hlies.le
  obtain ⟨rest, hdrop⟩ := hlies.drop
  rw [encodeTable] at hle
  have hunfold := unfold_encodeFrom h Nat.one_pos (by omega) 0 rest
  rw [Abbreviation.table, if_neg (by omega), hdrop, encodeTable, hunfold, if_pos]
  · rfl
  · rw [map_code_abbreviationsFrom]
    exact List.nodup_range'

theorem find?_abbreviationsFrom {layouts : List EntryLayout} {layout : EntryLayout}
    (h : layout ∈ layouts) (start : Nat) :
    (abbreviationsFrom start layouts).find? (·.code = start + layouts.idxOf layout) =
      some (layout.abbreviation (start + layouts.idxOf layout)) := by
  induction layouts generalizing start with
  | nil => cases h
  | cons first rest ih =>
      by_cases heq : first = layout
      · subst heq
        rw [List.idxOf_cons_self, abbreviationsFrom, List.find?_cons_of_pos]
        · rfl
        · exact decide_eq_true rfl
      · have hrest := (List.mem_cons.mp h).resolve_left (Ne.symm heq)
        -- Codes count up, so no later layout has the code of the first one.
        have hother : start ≠ start + (rest.idxOf layout + 1) := by omega
        rw [List.idxOf_cons, beq_false_of_ne heq, cond_false, abbreviationsFrom,
          List.find?_cons_of_neg, Nat.add_comm _ 1, ← Nat.add_assoc, ih hrest]
        exact fun hcode => hother (of_decide_eq_true hcode)

/-- The code of a layout leads to its abbreviation. -/
theorem find?_abbreviations {layouts : List EntryLayout} {layout : EntryLayout}
    (h : layout ∈ layouts) :
    (abbreviations layouts).find? (·.code = layouts.idxOf layout + 1) =
      some (layout.abbreviation (layouts.idxOf layout + 1)) := by
  rw [Nat.add_comm]
  exact find?_abbreviationsFrom h 1

end EntryLayout

end Symbolizer
