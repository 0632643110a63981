import Symbolizer.Dwarf.Encoding
import Symbolizer.Proofs.Numbers

/-! # Reading what was written

A reader reads a value off some bytes when it takes exactly these, whatever follows
them. Readings compose as their readers do, so a written structure is read back field
by field. A structure behind a length field is read from what the field covers.
-/

namespace Symbolizer.Dwarf

namespace Reader

variable {α β : Type}

/-- The reader takes exactly these bytes for the value. -/
def Reads (reader : Reader α) (bytes : Bytes) (value : α) : Prop :=
  ∀ rest, reader (bytes ++ rest) = .ok (value, rest)

namespace Reads

theorem pure (value : α) : Reads (pure value) [] value := by
  intro rest
  rfl

theorem eq {reader : Reader α} {bytes : Bytes} {value : α} (h : Reads reader bytes value) :
    reader bytes = .ok (value, []) := by
  have hall := h []
  rwa [List.append_nil] at hall

/-- What the reader does behind a field is what it does with the field's value. -/
theorem bind_append {reader : Reader α} {bytes : Bytes} {value : α} (h : Reads reader bytes value)
    (next : α → Reader β) (rest : Bytes) : (reader >>= next) (bytes ++ rest) = next value rest := by
  change (reader (bytes ++ rest) >>= fun read => next read.1 read.2) = next value rest
  rw [h]
  rfl

theorem bind {reader : Reader α} {first second : Bytes} {value : α} {next : α → Reader β}
    {result : β} (h : Reads reader first value) (hnext : Reads (next value) second result) :
    Reads (reader >>= next) (first ++ second) result := by
  intro rest
  rw [List.append_assoc, h.bind_append, hnext]

/-- A step that takes no more bytes. -/
theorem bind_nil {reader : Reader α} {bytes : Bytes} {value : α} {next : α → Reader β} {result : β}
    (h : Reads reader bytes value) (hnext : Reads (next value) [] result) :
    Reads (reader >>= next) bytes result := by
  have hall := h.bind hnext
  rwa [List.append_nil] at hall

theorem map {reader : Reader α} {bytes : Bytes} {value : α} (h : Reads reader bytes value)
    (f : α → β) : Reads (f <$> reader) bytes (f value) := by
  intro rest
  change (reader (bytes ++ rest) >>= fun read => Except.ok (f read.1, read.2)) = _
  rw [h]
  rfl

theorem discard {reader : Reader α} {bytes : Bytes} {value : α} (h : Reads reader bytes value) :
    Reads (discard reader) bytes () := h.map fun _ => ()

theorem take (bytes : Bytes) : Reads (take bytes.length) bytes bytes :=
  fun _ => take_append rfl

theorem skip (bytes : Bytes) : Reads (skip bytes.length) bytes () := (take bytes).discard

theorem word_mod (count n : Nat) : Reads (word count) (Bytes.ofNat count n) (n % 256 ^ count) :=
  word_append count n

theorem word {count n : Nat} (hn : n < 256 ^ count) :
    Reads (word count) (Bytes.ofNat count n) n := by
  simpa only [Nat.mod_eq_of_lt hn] using word_mod count n

theorem byte (b : UInt8) : Reads byte [b] b.toNat := by
  have h : Reads (Reader.word 1) (Bytes.ofNat 1 b.toNat) b.toNat := word b.toNat_lt
  rwa [Bytes.ofNat, Bytes.ofNat, UInt8.ofNat_toNat] at h

theorem name {text : Bytes} (htext : 0 ∉ text) : Reads name (Bytes.terminated text) text :=
  name_append htext

theorem uleb {n : Nat} (hn : n < 2 ^ 64) : Reads uleb (Leb128.encode n) n :=
  Leb128.unsigned_encode hn

theorem sleb {i : Int} (hlow : -2 ^ 63 ≤ i) (hhigh : i < 2 ^ 63) :
    Reads sleb (Leb128.encodeSigned i) i := by
  intro rest
  exact Leb128.signed_encodeSigned (by decide : 63 % 7 = 0) hlow hhigh rest

theorem code {n : Nat} (hn : n < 2 ^ 16) : Reads code (Leb128.encode n) n :=
  Leb128.unsigned_encode hn

theorem offset_mod (n : Nat) :
    Reads Format.dwarf32.offset (Bytes.ofNat 4 n) (n % 2 ^ 32) := word_mod 4 n

theorem offset {n : Nat} (hn : n < 2 ^ 32) : Reads Format.dwarf32.offset (Bytes.ofNat 4 n) n :=
  word hn

theorem addressSize : Reads AddressSize.read [8] .eight := (byte 8).bind (pure _)

theorem address (a : Address) :
    Reads AddressSize.eight.address (Bytes.ofNat 8 a.toNat) a := by
  have hword : Reads (Reader.word 8) (Bytes.ofNat 8 a.toNat) a.toNat := word a.toNat_lt
  have h := hword.map UInt64.ofNat
  rwa [UInt64.ofNat_toNat] at h

theorem within {inner : Reader α} {piece left : Bytes} {value : α}
    (h : inner piece = .ok (value, left)) : Reads (within piece.length inner) piece value := by
  intro rest
  rw [Reader.within, (take piece).bind_append]
  change ((inner piece >>= fun read => Except.ok (read, rest)) >>=
    fun read => Except.ok (read.1.1, read.2)) = _
  rw [h]
  rfl

theorem times {step : Reader α} {piece : β → Bytes} {value : β → α} {items : List β}
    (h : ∀ item ∈ items, Reads step (piece item) (value item)) :
    Reads (times step items.length) (items.flatMap piece) (items.map value) := by
  induction items with
  | nil => exact pure []
  | cons item items ih =>
      have hrest := ih fun other hother => h other (List.mem_cons_of_mem _ hother)
      have hall : Reads (Reader.times step (items.length + 1))
          (piece item ++ items.flatMap piece) (value item :: items.map value) :=
        (h item List.mem_cons_self).bind (hrest.bind_nil (pure _))
      exact hall

end Reads

theorem get_bind (next : Bytes → Reader β) (bytes : Bytes) :
    ((get : Reader Bytes) >>= next) bytes = next bytes bytes := rfl

/-- The length fields that state a length rather than something else. -/
def plainLengthBound : Nat := 0xfffffff0

theorem Reads.initialLength {length : Nat} (h : length < plainLengthBound) :
    Reads initialLength (Bytes.ofNat 4 length) (.dwarf32, length) := by
  rw [plainLengthBound] at h
  intro rest
  rw [Reader.initialLength, (Reads.word (by omega)).bind_append, if_pos h]
  rfl

theorem Reads.sized {inner : Format → Reader α} {body left : Bytes} {value : α}
    (hlength : body.length < plainLengthBound) (h : inner .dwarf32 body = .ok (value, left)) :
    Reads (sized inner) (Bytes.sized body) value :=
  (Reads.initialLength hlength).bind (Reads.within h)

/-- The format keeps the largest lengths for itself: a structure of such a length is not read. -/
theorem sized_reserved {inner : Format → Reader α} {body : Bytes}
    (hlow : plainLengthBound ≤ body.length) (hhigh : body.length < 0xffffffff) (rest : Bytes) :
    sized inner (Bytes.sized body ++ rest) = .error .reservedLength := by
  rw [plainLengthBound] at hlow
  have hword : Reads (word 4) (Bytes.ofNat 4 body.length) body.length := Reads.word (by omega)
  rw [sized, Bytes.sized, List.append_assoc, initialLength, bind_assoc, hword.bind_append,
    if_neg (by omega), if_neg (by omega)]
  rfl

theorem many_stop {step : Reader (Option α)} {stop : Bytes} (h : Reads step stop none) :
    Reads (many step) stop [] := by
  intro rest
  rw [many]
  simp only [h rest]

theorem many_append {step : Reader (Option α)} {piece : β → Bytes} {value : β → α}
    {items : List β} {stop : Bytes}
    (h : ∀ item ∈ items, Reads step (piece item) (some (value item)) ∧ piece item ≠ [])
    (hstop : Reads step stop none) :
    Reads (many step) (items.flatMap piece ++ stop) (items.map value) := by
  intro rest
  induction items with
  | nil => exact many_stop hstop rest
  | cons item items ih =>
      obtain ⟨hstep, hne⟩ := h item List.mem_cons_self
      have hpos := List.length_pos_iff.mpr hne
      have hrest := ih fun other hother => h other (List.mem_cons_of_mem _ hother)
      rw [many, List.flatMap_cons, List.append_assoc, List.append_assoc, hstep]
      simp only [List.append_assoc] at hrest
      simp only [List.length_append, hrest, List.map_cons]
      rw [if_pos (by omega)]
      rfl

end Reader

end Symbolizer.Dwarf
