import Symbolizer.Text.Lossy

/-! # Text of fixed capacity

A buffer keeps as much of its last source as fits and how much that is. The cells
past that length are zero, so two buffers are equal when their contents are.
-/

namespace Symbolizer

structure Bounded (capacity : Nat) where
  raw : Vector UInt8 capacity
  length : Nat
  deriving DecidableEq

/-- What a copy into a buffer did. -/
structure Copied where
  written : Nat
  truncated : Bool
  deriving DecidableEq, Repr

namespace Bounded

variable {capacity : Nat}

def empty : Bounded capacity := ⟨Vector.replicate capacity 0, 0⟩

/-- Overwrites every cell, with zero where the source has ended. -/
def copyFrom (buffer : Bounded capacity) (source : Bytes) : Bounded capacity :=
  ⟨buffer.raw.mapIdx fun i _ => source.getD i 0, min source.length capacity⟩

def copied (capacity : Nat) (source : Bytes) : Copied :=
  let written := min source.length capacity
  ⟨written, written < source.length⟩

def ofBytes (source : Bytes) : Bounded capacity := empty.copyFrom source

def contents (buffer : Bounded capacity) : Bytes := buffer.raw.toList.take buffer.length

def isEmpty (buffer : Bounded capacity) : Bool := buffer.length == 0

/-- Rendered lossily, since truncation may split a character. -/
def text (buffer : Bounded capacity) : String := Lossy.text buffer.contents

/-- The text between quotes, with nothing escaped. -/
def quoted (buffer : Bounded capacity) : String := "\"" ++ buffer.text ++ "\""

/-- A source is cut where it is longer than the buffer. -/
theorem truncated_copied_iff {source : Bytes} :
    (copied capacity source).truncated = true ↔ capacity < source.length := by
  rw [copied, decide_eq_true_iff]
  omega

theorem raw_copyFrom (buffer : Bounded capacity) (source : Bytes) :
    (buffer.copyFrom source).raw.toList =
      source.take capacity ++ List.replicate (capacity - source.length) 0 := by
  apply List.ext_getElem
  · simp [Vector.length_toList]
    omega
  · intro i hleft hright
    simp only [Vector.length_toList] at hleft
    by_cases hlen : i < source.length
    · rw [List.getElem_append_left (by simp; omega)]
      simp [copyFrom, hlen]
    · rw [List.getElem_append_right (by simp; omega)]
      simp [copyFrom, List.getElem?_eq_none (Nat.le_of_not_lt hlen)]

theorem contents_copyFrom (buffer : Bounded capacity) (source : Bytes) :
    (buffer.copyFrom source).contents = source.take capacity := by
  rw [contents, raw_copyFrom]
  simp [copyFrom, Nat.min_comm]

theorem contents_ofBytes (source : Bytes) :
    (ofBytes source : Bounded capacity).contents = source.take capacity :=
  contents_copyFrom _ _

theorem copyFrom_eq_ofBytes (buffer : Bounded capacity) (source : Bytes) :
    buffer.copyFrom source = ofBytes source := by
  have hraw : (buffer.copyFrom source).raw = (ofBytes source : Bounded capacity).raw := by
    apply Vector.toList_inj.mp
    rw [ofBytes, raw_copyFrom, raw_copyFrom]
  exact congrArg (Bounded.mk · (min source.length capacity)) hraw

end Bounded

end Symbolizer
