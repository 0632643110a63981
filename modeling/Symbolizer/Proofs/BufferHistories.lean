import Symbolizer.Bounded

/-! # Histories of buffers

A buffer is used again and again, for longer and for shorter texts. Every operation leaves
the cells past the length empty, so nothing remains of what a buffer held earlier, and
buffers with the same contents are the same.
-/

namespace Symbolizer.Bounded

variable {capacity : Nat}

/-- The length fits, and no cell past it holds anything. -/
structure Clean (buffer : Bounded capacity) : Prop where
  length_le : buffer.length ≤ capacity
  raw_eq_zero : ∀ i, ∀ hi : i < capacity, buffer.length ≤ i → buffer.raw[i] = 0

namespace Clean

theorem of_empty : (empty : Bounded capacity).Clean where
  length_le := Nat.zero_le _
  raw_eq_zero i hi _ := by simp [empty]

theorem of_copyFrom (buffer : Bounded capacity) (source : Bytes) :
    (buffer.copyFrom source).Clean where
  length_le := Nat.min_le_right _ _
  raw_eq_zero i hi hpast := by
    have hended : source.length ≤ i := by
      simp only [copyFrom] at hpast
      omega
    simp [copyFrom, List.getElem?_eq_none hended]

variable {buffer other : Bounded capacity}

theorem length_contents (h : buffer.Clean) : buffer.contents.length = buffer.length := by
  rw [contents, List.length_take, Vector.length_toList, Nat.min_eq_left h.length_le]

/-- The array is the contents and then zeros. -/
theorem toList_raw (h : buffer.Clean) :
    buffer.raw.toList = buffer.contents ++ List.replicate (capacity - buffer.length) 0 := by
  have hrest : buffer.raw.toList.drop buffer.length =
      List.replicate (capacity - buffer.length) 0 := by
    refine List.eq_replicate_iff.mpr ⟨by rw [List.length_drop, Vector.length_toList], ?_⟩
    intro byte hbyte
    obtain ⟨i, hi, rfl⟩ := List.mem_iff_getElem.mp hbyte
    rw [List.length_drop, Vector.length_toList] at hi
    rw [List.getElem_drop, Vector.getElem_toList]
    exact h.raw_eq_zero _ (by omega) (Nat.le_add_right _ _)
  rw [← hrest, contents, List.take_append_drop]

theorem eq_iff (h : buffer.Clean) (hother : other.Clean) :
    buffer = other ↔ buffer.contents = other.contents := by
  refine ⟨fun heq => heq ▸ rfl, fun hcontents => ?_⟩
  have hlength : buffer.length = other.length := by
    rw [← h.length_contents, ← hother.length_contents, hcontents]
  have hraw : buffer.raw = other.raw :=
    Vector.toList_inj.mp (by rw [h.toList_raw, hother.toList_raw, hcontents, hlength])
  cases buffer
  cases other
  cases hraw
  cases hlength
  rfl

end Clean

/-- An operation that puts a source into a buffer. -/
inductive Write
  | copy (source : Bytes)
  /-- A new buffer takes the place of the old one. -/
  | replace (source : Bytes)
  deriving DecidableEq, Repr

namespace Write

def source : Write → Bytes
  | copy source | replace source => source

/-- The buffer that is left, and what is reported of a copy. -/
def apply (buffer : Bounded capacity) : Write → Bounded capacity × Option Copied
  | copy source => (buffer.copyFrom source, some (copied capacity source))
  | replace source => (ofBytes source, none)

theorem fst_apply (buffer : Bounded capacity) (write : Write) :
    (write.apply buffer).1 = ofBytes write.source := by
  cases write with
  | copy source => exact copyFrom_eq_ofBytes buffer source
  | replace source => rfl

end Write

/-- What a new buffer has become after some operations. -/
def after (history : List Write) : Bounded capacity :=
  history.foldl (fun buffer write => (write.apply buffer).1) empty

theorem after_append_singleton (history : List Write) (write : Write) :
    (after (history ++ [write]) : Bounded capacity) = (write.apply (after history)).1 := by
  rw [after, List.foldl_append]
  rfl

theorem clean_after (history : List Write) : (after history : Bounded capacity).Clean := by
  rcases history.eq_nil_or_concat with rfl | ⟨earlier, write, rfl⟩
  · exact .of_empty
  · rw [List.concat_eq_append, after_append_singleton, Write.fst_apply]
    exact .of_copyFrom _ _

/-- The buffer holds as much of the source as fits, and nothing else. -/
structure Holds (buffer : Bounded capacity) (source : Bytes) : Prop where
  length_eq : buffer.length = min source.length capacity
  contents_eq : buffer.contents = source.take (min source.length capacity)
  clean : buffer.Clean

theorem holds_ofBytes (source : Bytes) : (ofBytes source : Bounded capacity).Holds source where
  length_eq := rfl
  contents_eq := by
    rw [contents_ofBytes, Nat.min_comm, ← List.take_take, List.take_length]
  clean := .of_copyFrom _ _

/-- Whatever was done with a buffer before, after an operation it holds the source of this one as
if it were new, and a copy reports how much that is. So buffers are equal, cell by cell, exactly if
their contents are, however they came about. -/
theorem after_holds_last_source (history other : List Write) (write : Write) :
    (after (history ++ [write]) : Bounded capacity).Holds write.source ∧
    (after (history ++ [write]) : Bounded capacity) = ofBytes write.source ∧
    (∀ source, write = .copy source → ∃ report,
      (write.apply (after history : Bounded capacity)).2 = some report ∧
      report.written = (after (history ++ [write]) : Bounded capacity).length ∧
      (report.truncated = true ↔ capacity < source.length)) ∧
    ((after history : Bounded capacity) = after other ↔
      (after history : Bounded capacity).contents = (after other : Bounded capacity).contents) := by
  have hlast : (after (history ++ [write]) : Bounded capacity) = ofBytes write.source := by
    rw [after_append_singleton, Write.fst_apply]
  refine ⟨hlast ▸ holds_ofBytes _, hlast, ?_, (clean_after history).eq_iff (clean_after other)⟩
  rintro source rfl
  refine ⟨copied capacity source, rfl, ?_, truncated_copied_iff⟩
  rw [hlast]
  rfl

/-- A short name copied over a long one. -/
def reused : List Write := [.replace (Bytes.ofText "<unknown>"), .copy (Bytes.ofText "f")]

/-- Nothing is left of the long name. -/
theorem reused_holds_short_name :
    (after reused : Bounded 8).raw.toList = [0x66, 0, 0, 0, 0, 0, 0, 0] ∧
    (after reused : Bounded 8) = after [.copy (Bytes.ofText "f")] ∧
    ∃ report, (Write.apply (after reused : Bounded 8) (.copy (Bytes.ofText "<unknown>"))).2 =
      some report ∧ report.written = 8 ∧ report.truncated = true := by
  obtain ⟨-, -, hreport, heq⟩ := @after_holds_last_source 8 reused
    [.copy (Bytes.ofText "f")] (.copy (Bytes.ofText "<unknown>"))
  obtain ⟨report, happly, hwritten, htruncated⟩ := hreport _ rfl
  refine ⟨by decide, heq.mpr (by decide), report, happly, ?_, htruncated.mpr (by decide)⟩
  rw [hwritten]
  decide

end Symbolizer.Bounded
