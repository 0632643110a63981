import Symbolizer.Proofs.Outcomes
import Symbolizer.Proofs.Sequences

/-! # Readers that look no further

A reader is local if it takes its value from the bytes that it uses up and from nothing
behind them. All readers of single fields are, and so is one of a structure behind a
length field, whatever is read inside. Hence the structures in front of a section stay
what they are when bytes are put behind them, malformed ones included.
-/

namespace Symbolizer.Dwarf

namespace Reader

variable {α β : Type}

theorem bind_eq_ok_iff {reader : Reader α} {next : α → Reader β} {bytes rest : Bytes} {b : β} :
    (reader >>= next) bytes = .ok (b, rest) ↔
      ∃ a left, reader bytes = .ok (a, left) ∧ next a left = .ok (b, rest) := by
  refine Except.bind_eq_ok_iff.trans ⟨?_, ?_⟩
  · rintro ⟨⟨a, left⟩, hfirst, hsecond⟩
    exact ⟨a, left, hfirst, hsecond⟩
  · rintro ⟨a, left, hfirst, hsecond⟩
    exact ⟨⟨a, left⟩, hfirst, hsecond⟩

theorem map_eq_ok_iff {reader : Reader α} {f : α → β} {bytes rest : Bytes} {b : β} :
    (f <$> reader) bytes = .ok (b, rest) ↔ ∃ a, reader bytes = .ok (a, rest) ∧ f a = b := by
  change (reader bytes >>= fun read => Except.ok (f read.1, read.2)) = _ ↔ _
  rw [Except.bind_eq_ok_iff]
  simp

theorem take_eq_ok_iff {count : Nat} {bytes piece rest : Bytes} :
    take count bytes = .ok (piece, rest) ↔ piece.length = count ∧ bytes = piece ++ rest := by
  constructor
  · intro h
    rw [take] at h
    split at h
    next hle =>
      cases h
      exact ⟨List.length_take_of_le hle, (List.take_append_drop count bytes).symm⟩
    next => cases h
  · rintro ⟨hlength, rfl⟩
    exact take_append hlength

/-- A value is read off the bytes that are used up for it, whatever follows them. -/
def Local (reader : Reader α) : Prop :=
  ∀ bytes value rest, reader bytes = .ok (value, rest) →
    ∃ piece, bytes = piece ++ rest ∧ Reads reader piece value

namespace Local

theorem suffix {reader : Reader α} (h : Local reader) {bytes rest : Bytes} {value : α}
    (hread : reader bytes = .ok (value, rest)) : rest <:+ bytes := by
  obtain ⟨piece, rfl, _⟩ := h _ _ _ hread
  exact List.suffix_append piece rest

/-- What is read stays the same when bytes are put behind all others. -/
theorem read_append {reader : Reader α} (h : Local reader) {bytes rest : Bytes} {value : α}
    (hread : reader bytes = .ok (value, rest)) (more : Bytes) :
    reader (bytes ++ more) = .ok (value, rest ++ more) := by
  obtain ⟨piece, rfl, hpiece⟩ := h _ _ _ hread
  rw [List.append_assoc]
  exact hpiece _

theorem pure (value : α) : Local (pure value) := by
  intro bytes other rest hread
  cases hread
  exact ⟨[], rfl, .pure value⟩

theorem throw (e : DecodeError) : Local (throw e : Reader α) := by
  intro bytes value rest hread
  cases hread

theorem bind {reader : Reader α} {next : α → Reader β} (h : Local reader)
    (hnext : ∀ a, Local (next a)) : Local (reader >>= next) := by
  intro bytes value rest hread
  obtain ⟨a, left, hfirst, hsecond⟩ := bind_eq_ok_iff.mp hread
  obtain ⟨front, rfl, hfront⟩ := h _ _ _ hfirst
  obtain ⟨piece, rfl, hpiece⟩ := hnext a _ _ _ hsecond
  exact ⟨front ++ piece, (List.append_assoc _ _ _).symm, hfront.bind hpiece⟩

theorem map {reader : Reader α} (h : Local reader) (f : α → β) : Local (f <$> reader) := by
  intro bytes value rest hread
  obtain ⟨a, hfirst, rfl⟩ := map_eq_ok_iff.mp hread
  obtain ⟨piece, heq, hpiece⟩ := h _ _ _ hfirst
  exact ⟨piece, heq, hpiece.map f⟩

theorem discard {reader : Reader α} (h : Local reader) : Local (discard reader) :=
  h.map fun _ => ()

theorem take (count : Nat) : Local (take count) := by
  intro bytes value rest hread
  obtain ⟨hlength, rfl⟩ := take_eq_ok_iff.mp hread
  exact ⟨value, rfl, fun more => take_append hlength⟩

theorem skip (count : Nat) : Local (skip count) := (take count).discard

theorem word (count : Nat) : Local (word count) := (take count).map _

theorem byte : Local byte := word 1

theorem name : Local name := by
  intro bytes value rest hread
  rw [Reader.name] at hread
  split at hread
  next found hsplit =>
    cases hread
    obtain ⟨htext, rfl⟩ := Bytes.splitZero_eq_some hsplit
    exact ⟨Bytes.terminated value, by rw [Bytes.terminated, List.append_assoc]; rfl, .name htext⟩
  next => cases hread

/-- A byte that says that no other follows is all that is read. -/
theorem of_last {reader : Reader α} {byte : UInt8} {value : α} (bytes : Bytes)
    (h : ∀ rest, reader (byte :: rest) = .ok (value, rest)) :
    ∃ piece, byte :: bytes = piece ++ bytes ∧ Reads reader piece value :=
  ⟨[byte], rfl, h⟩

theorem unsigned (width : Nat) : Local (Leb128.unsigned width) := by
  intro bytes
  induction bytes generalizing width with
  | nil => exact nofun
  | cons byte tail ih =>
      intro value rest hread
      rw [Leb128.unsigned] at hread
      split at hread
      · rename_i hnarrow
        split at hread
        · rename_i hlow
          cases hread
          exact of_last _ fun more => by rw [Leb128.unsigned, if_pos hnarrow, if_pos hlow]
        · cases hread
      · rename_i hwide
        split at hread
        · rename_i hlast
          cases hread
          exact of_last _ fun more => by rw [Leb128.unsigned, if_neg hwide, if_pos hlast]
        · rename_i hmore
          obtain ⟨⟨high, left⟩, hhigh, hvalue⟩ := Except.bind_eq_ok_iff.mp hread
          cases hvalue
          obtain ⟨piece, rfl, hpiece⟩ := ih _ _ _ hhigh
          refine ⟨byte :: piece, rfl, fun more => ?_⟩
          rw [List.cons_append, Leb128.unsigned, if_neg hwide, if_neg hmore, hpiece]
          rfl

theorem signed (width : Nat) : Local (Leb128.signed width) := by
  intro bytes
  induction bytes generalizing width with
  | nil => exact nofun
  | cons byte tail ih =>
      intro value rest hread
      rw [Leb128.signed] at hread
      split at hread
      · rename_i hnarrow
        split at hread
        · rename_i hzero
          cases hread
          exact of_last _ fun more => by rw [Leb128.signed, if_pos hnarrow, if_pos hzero]
        · rename_i hnonzero
          split at hread
          · rename_i hsign
            cases hread
            exact of_last _ fun more => by
              rw [Leb128.signed, if_pos hnarrow, if_neg hnonzero, if_pos hsign]
          · cases hread
      · rename_i hwide
        split at hread
        · rename_i hpositive
          cases hread
          exact of_last _ fun more => by rw [Leb128.signed, if_neg hwide, if_pos hpositive]
        · rename_i hnegative
          split at hread
          · rename_i hlast
            cases hread
            exact of_last _ fun more => by
              rw [Leb128.signed, if_neg hwide, if_neg hnegative, if_pos hlast]
          · rename_i hmore
            obtain ⟨⟨high, left⟩, hhigh, hvalue⟩ := Except.bind_eq_ok_iff.mp hread
            cases hvalue
            obtain ⟨piece, rfl, hpiece⟩ := ih _ _ _ hhigh
            refine ⟨byte :: piece, rfl, fun more => ?_⟩
            rw [List.cons_append, Leb128.signed, if_neg hwide, if_neg hnegative, if_neg hmore,
              hpiece]
            rfl

theorem uleb : Local uleb := unsigned 64

theorem sleb : Local sleb := signed 64

theorem code : Local code := unsigned 16

/-- What does not come from the bytes is not changed by them. -/
theorem lift (answer : Except DecodeError α) : Local (StateT.lift answer : Reader α) := by
  intro bytes value rest hread
  obtain ⟨a, ha, heq⟩ := Except.bind_eq_ok_iff.mp hread
  cases heq
  refine ⟨[], rfl, fun more => ?_⟩
  change (answer >>= fun a => Except.ok (a, [] ++ more)) = _
  rw [ha]
  rfl

/-- What is read inside a piece of known length sees nothing of what follows the piece. -/
theorem within (count : Nat) (inner : Reader α) : Local (within count inner) :=
  (take count).bind fun piece => (lift (inner piece)).bind fun read => pure read.1

theorem initialLength : Local initialLength := by
  refine (word 4).bind fun length => ?_
  split
  · exact pure _
  split
  · exact (word 8).bind fun length => pure _
  · exact throw _

theorem sized (inner : Format → Reader α) : Local (sized inner) :=
  initialLength.bind fun field => within field.2 (inner field.1)

end Local

end Reader

namespace Decoded

variable {α : Type} {step : Nat → Reader (Option α)} {position : Nat} {bytes : Bytes}

/-- The step goes on to the end of the bytes, item by item, and reads each item off bytes of its
own. -/
def Steady (step : Nat → Reader (Option α)) : Prop :=
  ∀ position bytes found rest, step position bytes = .ok (found, rest) →
    ∃ a piece, found = some a ∧ piece ≠ [] ∧ bytes = piece ++ rest ∧
      (step position).Reads piece (some a)

theorem steady_sized (inner : Nat → Format → Reader α) :
    Steady fun position => some <$> Reader.sized (inner position) := by
  intro position bytes found rest hread
  obtain ⟨a, hsized, rfl⟩ := Reader.map_eq_ok_iff.mp hread
  obtain ⟨piece, rfl, hpiece⟩ := Reader.Local.sized (inner position) _ _ _ hsized
  refine ⟨a, piece, rfl, ?_, rfl, hpiece.map some⟩
  rintro rfl
  cases hpiece.eq

/-- The items lie one behind the other in front of what cannot be read, if there is anything. -/
theorem Steady.exists_unfolds (h : Steady step) (position : Nat) (bytes : Bytes) :
    ∃ front tail, bytes = front ++ tail ∧
      Unfolds step position front (unfold step position bytes).items ∧
      ((unfold step position bytes).fault = none → tail = []) := by
  fun_induction unfold step position bytes with
  | case1 position => exact ⟨[], [], rfl, .nil, fun _ => rfl⟩
  | case2 position bytes _ e hstep => exact ⟨[], bytes, rfl, .nil, nofun⟩
  | case3 position bytes _ rest hstep =>
      obtain ⟨_, _, hnone, _⟩ := h _ _ _ _ hstep
      cases hnone
  | case4 position bytes _ a rest hstep hlt ih =>
      obtain ⟨_, piece, ⟨⟩, hne, rfl, hpiece⟩ := h _ _ _ _ hstep
      obtain ⟨front, tail, rfl, hfront, htail⟩ := ih
      refine ⟨piece ++ front, tail, (List.append_assoc _ _ _).symm, ?_, htail⟩
      rw [List.length_append, Nat.add_sub_cancel] at hfront ⊢
      exact (Unfolds.one hpiece hne).append hfront
  | case5 position bytes _ a rest hstep hle =>
      obtain ⟨_, piece, _, hne, rfl, _⟩ := h _ _ _ _ hstep
      have hpos := List.length_pos_iff.mpr hne
      rw [List.length_append] at hle
      omega

/-- Bytes put behind all others take no item away and change none. -/
theorem Steady.items_append (h : Steady step) (position : Nat) (bytes more : Bytes) :
    (unfold step position bytes).items <+: (unfold step position (bytes ++ more)).items := by
  obtain ⟨front, tail, hbytes, hfront, _⟩ := h.exists_unfolds position bytes
  have hall := hfront (tail ++ more)
  rw [← List.append_assoc, ← hbytes, none_append] at hall
  rw [hall]
  exact List.prefix_append _ _

/-- Behind bytes that are read to their end reading goes on with what follows them. -/
theorem Steady.unfold_append (h : Steady step)
    (hfault : (unfold step position bytes).fault = none) (more : Bytes) :
    unfold step position (bytes ++ more) =
      (unfold step position bytes).append (unfold step (position + bytes.length) more) := by
  obtain ⟨front, tail, hbytes, hfront, htail⟩ := h.exists_unfolds position bytes
  rw [htail hfault, List.append_nil] at hbytes
  have hself : ⟨(unfold step position bytes).items, none⟩ = unfold step position bytes := by
    rw [← hfault]
  rw [hbytes, hfront more, ← hbytes, hself]

/-- Where the step does not ask for the position, it does not matter where reading starts. -/
theorem unfold_of_constant (step : Reader (Option α)) (position other : Nat) (bytes : Bytes) :
    unfold (fun _ => step) position bytes = unfold (fun _ => step) other bytes := by
  fun_induction unfold (fun _ => step) position bytes generalizing other with
  | case1 position => rw [unfold_nil]
  | case2 position bytes hne e hstep => rw [unfold, if_neg hne, hstep]
  | case3 position bytes hne rest hstep => rw [unfold, if_neg hne, hstep]
  | case4 position bytes hne a rest hstep hlt ih => rw [unfold_of_step hstep hlt, ih]
  | case5 position bytes hne a rest hstep hle =>
      rw [unfold, if_neg hne, hstep]
      exact (if_neg hle).symm

end Decoded

end Symbolizer.Dwarf
