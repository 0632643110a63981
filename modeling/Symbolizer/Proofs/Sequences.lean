import Symbolizer.Proofs.Reading
import Symbolizer.Dwarf.Decoded

/-! # Pieces one after another

A section is written as pieces one after another, each told where it comes to lie. It
is read back piece by piece: a piece that unfolds into its items wherever it lies does
so among others.
-/

namespace Symbolizer

/-- What one item contributes is no longer than what all do. -/
theorem length_le_length_flatMap {β γ : Type} (piece : β → List γ) {items : List β} {item : β}
    (h : item ∈ items) : (piece item).length ≤ (items.flatMap piece).length := by
  rw [List.flatMap_def]
  exact (List.sublist_flatten_of_mem (List.mem_map_of_mem h)).length_le

/-- Items that contribute nothing can be left out. -/
theorem flatMap_ite_nil {β γ : Type} (p : β → Bool) (piece : β → List γ) (items : List β) :
    (items.flatMap fun item => if p item then [] else piece item) =
      (items.filter (!p ·)).flatMap piece := by
  induction items with
  | nil => rfl
  | cons item items ih =>
      rw [List.flatMap_cons, ih, List.filter_cons]
      cases p item <;> rfl

section LayOut

variable {σ β γ : Type} {after : σ → β → σ}

/-- Items one after another, each with the place at which it comes to lie. -/
def layOut (after : σ → β → σ) : σ → List β → List (σ × β)
  | _, [] => []
  | start, item :: rest => (start, item) :: layOut after (after start item) rest

@[simp] theorem map_snd_layOut (after : σ → β → σ) (start : σ) (items : List β) :
    (layOut after start items).map Prod.snd = items := by
  induction items generalizing start with
  | nil => rfl
  | cons item items ih => rw [layOut, List.map_cons, ih]

theorem mem_of_mem_layOut {start place : σ} {items : List β} {item : β}
    (h : (place, item) ∈ layOut after start items) : item ∈ items := by
  rw [← map_snd_layOut after start items]
  exact List.mem_map_of_mem h

theorem exists_mem_layOut (start : σ) {items : List β} {item : β} (h : item ∈ items) :
    ∃ place, (place, item) ∈ layOut after start items := by
  rw [← map_snd_layOut after start items] at h
  obtain ⟨⟨place, _⟩, hmem, rfl⟩ := List.mem_map.mp h
  exact ⟨place, hmem⟩

/-- The piece is what the contents hold from an offset on, to its own end. -/
def LiesAt (offset : Nat) (piece contents : List γ) : Prop :=
  ∃ before behind, contents = before ++ (piece ++ behind) ∧ offset = before.length

namespace LiesAt

variable {base offset : Nat} {piece more middle contents : List γ}

theorem drop (h : LiesAt offset piece contents) : ∃ rest, contents.drop offset = piece ++ rest := by
  obtain ⟨before, behind, rfl, rfl⟩ := h
  exact ⟨behind, List.drop_left⟩

theorem le (h : LiesAt offset piece contents) : offset + piece.length ≤ contents.length := by
  obtain ⟨before, behind, rfl, rfl⟩ := h
  simp only [List.length_append]
  omega

theorem left (h : LiesAt offset (piece ++ more) contents) : LiesAt offset piece contents := by
  obtain ⟨before, behind, rfl, rfl⟩ := h
  exact ⟨before, more ++ behind, by rw [List.append_assoc], rfl⟩

theorem right (h : LiesAt offset (more ++ piece) contents) :
    LiesAt (offset + more.length) piece contents := by
  obtain ⟨before, behind, rfl, rfl⟩ := h
  exact ⟨before ++ more, behind, by simp only [List.append_assoc], by rw [List.length_append]⟩

theorem trans (h : LiesAt offset piece middle) (hmiddle : LiesAt base middle contents) :
    LiesAt (base + offset) piece contents := by
  obtain ⟨before, behind, rfl, rfl⟩ := h
  obtain ⟨before', behind', rfl, rfl⟩ := hmiddle
  exact ⟨before' ++ before, behind ++ behind', by simp only [List.append_assoc],
    by rw [List.length_append]⟩

theorem self (contents : List γ) : LiesAt 0 contents contents :=
  ⟨[], [], by rw [List.append_nil, List.nil_append], rfl⟩

theorem behind (front piece : List γ) : LiesAt front.length piece (front ++ piece) :=
  ⟨front, [], by rw [List.append_nil], rfl⟩

end LiesAt

/-- A piece lies behind as many bytes as its place says. -/
theorem liesAt_of_mem_layOut (offset : σ → Nat) (piece : σ → β → List γ)
    (hafter : ∀ place item, offset (after place item) = offset place + (piece place item).length)
    {start place : σ} {items : List β} {item : β} (h : (place, item) ∈ layOut after start items) :
    ∃ distance, offset place = offset start + distance ∧
      LiesAt distance (piece place item)
        ((layOut after start items).flatMap fun p => piece p.1 p.2) := by
  induction items generalizing start with
  | nil => cases h
  | cons first items ih =>
      rw [layOut, List.flatMap_cons]
      rw [layOut, List.mem_cons] at h
      rcases h with heq | hmem
      · obtain ⟨rfl, rfl⟩ := Prod.mk.inj heq
        exact ⟨0, rfl, (LiesAt.self _).left⟩
      · obtain ⟨distance, hoffset, hlies⟩ := ih hmem
        refine ⟨(piece start first).length + distance, ?_, ?_⟩
        · rw [hoffset, hafter, Nat.add_assoc]
        · exact hlies.trans (LiesAt.behind _ _)

/-- The next piece would lie behind all bytes of the others. -/
theorem offset_foldl (offset : σ → Nat) (piece : σ → β → List γ)
    (hafter : ∀ place item, offset (after place item) = offset place + (piece place item).length)
    (start : σ) (items : List β) : offset (items.foldl after start) =
      offset start + ((layOut after start items).flatMap fun p => piece p.1 p.2).length := by
  induction items generalizing start with
  | nil => rfl
  | cons item items ih =>
      rw [List.foldl_cons, ih, hafter, layOut, List.flatMap_cons, List.length_append, Nat.add_assoc]

end LayOut

namespace Dwarf.Decoded

variable {α β σ : Type}

theorem none_append (items : List α) (xs : Decoded α) :
    (⟨items, none⟩ : Decoded α).append xs = ⟨items ++ xs.items, xs.fault⟩ := rfl

theorem append_append (first second : List α) (xs : Decoded α) :
    (⟨first, none⟩ : Decoded α).append ((⟨second, none⟩ : Decoded α).append xs) =
      (⟨first ++ second, none⟩ : Decoded α).append xs := by
  simp only [none_append, List.append_assoc]

/-- Sequences without a fault, put in place of items, make one without a fault. -/
theorem flatMapItems_map_eq {γ : Type} {f : α → Decoded β} {g : γ → α} {value : γ → List β}
    {sources : List γ} (h : ∀ c ∈ sources, f (g c) = ⟨value c, none⟩) :
    flatMapItems f none (sources.map g) = ⟨sources.flatMap value, none⟩ := by
  induction sources with
  | nil => rfl
  | cons c sources ih =>
      rw [List.map_cons, flatMapItems, h c List.mem_cons_self,
        ih fun other hother => h other (List.mem_cons_of_mem _ hother)]
      rfl

theorem flatMapItems_eq_of_forall {f : α → Decoded β} {value : α → List β} {items : List α}
    (h : ∀ a ∈ items, f a = ⟨value a, none⟩) :
    flatMapItems f none items = ⟨items.flatMap value, none⟩ := by
  have hall := flatMapItems_map_eq h
  rwa [List.map_id'] at hall

theorem mem_append_items {first second : Decoded α} {a : α}
    (h : a ∈ (first.append second).items) : a ∈ first.items ∨ a ∈ second.items := by
  rw [append] at h
  split at h
  · exact Or.inl h
  · exact List.mem_append.mp h

theorem exists_of_mem_flatMapItems {f : α → Decoded β} {fault : Option DecodeError}
    {items : List α} {b : β} (h : b ∈ (flatMapItems f fault items).items) :
    ∃ a ∈ items, b ∈ (f a).items := by
  induction items with
  | nil => cases h
  | cons a items ih =>
      rcases mem_append_items h with hfirst | hrest
      · exact ⟨a, List.mem_cons_self, hfirst⟩
      · obtain ⟨other, hother, hb⟩ := ih hrest
        exact ⟨other, List.mem_cons_of_mem _ hother, hb⟩

/-- Where all was put in place of items, none of it has a fault. -/
theorem fault_of_flatMapItems {f : α → Decoded β} {fault : Option DecodeError} {items : List α}
    (h : (flatMapItems f fault items).fault = none) : ∀ a ∈ items, (f a).fault = none := by
  induction items with
  | nil => exact List.forall_mem_nil _
  | cons a items ih =>
      rw [flatMapItems, append] at h
      cases hfirst : (f a).fault with
      | none =>
          rw [hfirst] at h
          exact List.forall_mem_cons.mpr ⟨hfirst, ih h⟩
      | some e =>
          rw [hfirst] at h
          cases hfirst.symm.trans h

theorem mem_ofExcept {answer : Except DecodeError α} {a : α} (h : a ∈ (ofExcept answer).items) :
    answer = .ok a := by
  cases answer with
  | error e => cases h
  | ok b => rw [List.mem_singleton.mp h]

theorem toExcept_eq_ok_iff {xs : Decoded α} {items : List α} :
    xs.toExcept = .ok items ↔ xs.fault = none ∧ xs.items = items := by
  rw [toExcept]
  cases xs.fault with
  | none => simp
  | some e => simp

/-- From a position on, the bytes are read as the items, and reading goes on behind them. -/
def Unfolds (step : Nat → Reader (Option α)) (position : Nat) (bytes : Bytes) (items : List α) :
    Prop :=
  ∀ rest, unfold step position (bytes ++ rest) =
    (⟨items, none⟩ : Decoded α).append (unfold step (position + bytes.length) rest)

namespace Unfolds

variable {step : Nat → Reader (Option α)} {position : Nat}

theorem nil : Unfolds step position [] [] := by
  intro rest
  rfl

theorem one {bytes : Bytes} {a : α} (h : (step position).Reads bytes (some a))
    (hne : bytes ≠ []) : Unfolds step position bytes [a] := by
  intro rest
  have hpos := List.length_pos_iff.mpr hne
  rw [unfold_of_step (h rest) (by rw [List.length_append]; omega), List.length_append,
    Nat.add_sub_cancel]
  rfl

theorem append {first second : Bytes} {items more : List α}
    (hfirst : Unfolds step position first items)
    (hsecond : Unfolds step (position + first.length) second more) :
    Unfolds step position (first ++ second) (items ++ more) := by
  intro rest
  rw [List.append_assoc, hfirst, hsecond, append_append, List.length_append, Nat.add_assoc]

theorem layOut {after : σ → β → σ} (offset : σ → Nat) (piece : σ → β → Bytes)
    (value : σ → β → List α)
    (hafter : ∀ place item, offset (after place item) = offset place + (piece place item).length)
    (start : σ) {items : List β}
    (h : ∀ place item, (place, item) ∈ layOut after start items →
      Unfolds step (offset place) (piece place item) (value place item)) :
    Unfolds step (offset start) ((Symbolizer.layOut after start items).flatMap
      fun p => piece p.1 p.2) ((Symbolizer.layOut after start items).flatMap
      fun p => value p.1 p.2) := by
  induction items generalizing start with
  | nil => exact nil
  | cons item items ih =>
      apply (h start item List.mem_cons_self).append
      rw [← hafter]
      exact ih _ fun place other hother => h place other (List.mem_cons_of_mem _ hother)

/-- A reader that does not ask for the position reads pieces alike wherever they lie. -/
theorem flatMap {step : Reader (Option α)} {piece : β → Bytes} {value : β → α} {items : List β}
    (h : ∀ item ∈ items, step.Reads (piece item) (some (value item)))
    (hne : ∀ item ∈ items, piece item ≠ []) :
    Unfolds (fun _ => step) position (items.flatMap piece) (items.map value) := by
  induction items generalizing position with
  | nil => exact nil
  | cons item items ih =>
      apply (one (h item List.mem_cons_self) (hne item List.mem_cons_self)).append
      exact ih (fun other hother => h other (List.mem_cons_of_mem _ hother))
        fun other hother => hne other (List.mem_cons_of_mem _ hother)

/-- Bytes that are used up leave no fault. -/
theorem eq {bytes : Bytes} {items : List α} (h : Unfolds step position bytes items) :
    unfold step position bytes = ⟨items, none⟩ := by
  have hall := h []
  rwa [List.append_nil, unfold_nil, none_append, done, List.append_nil] at hall

/-- Reading ends where the reader says so. -/
theorem eq_of_stop {bytes rest left : Bytes} {items : List α}
    (h : Unfolds step position bytes items)
    (hstop : step (position + bytes.length) rest = .ok (none, left)) :
    unfold step position (bytes ++ rest) = ⟨items, none⟩ := by
  rw [h]
  by_cases hempty : rest = []
  · rw [hempty, unfold_nil, none_append, done, List.append_nil]
  · rw [unfold, if_neg hempty, hstop, none_append, done, List.append_nil]

end Unfolds

end Dwarf.Decoded

end Symbolizer
