/-! # Byte strings

Section contents and names are lists of bytes. A list of bytes denotes a number
with its least significant byte first, and a text is the bytes of its UTF-8 form.
-/

namespace Symbolizer

abbrev Bytes := List UInt8

/-- A code address of the image. -/
abbrev Address := UInt64

namespace Bytes

/-- The number whose bytes are given, least significant first. -/
def toNat : Bytes → Nat
  | [] => 0
  | byte :: rest => byte.toNat + 256 * toNat rest

/-- The `count` low bytes of a number, least significant first. -/
def ofNat : (count : Nat) → Nat → Bytes
  | 0, _ => []
  | count + 1, n => UInt8.ofNat n :: ofNat count (n / 256)

/-- The UTF-8 form of a text. -/
def ofText (text : String) : Bytes := text.toList.flatMap String.utf8EncodeChar

/-- The bytes before the first zero byte and the bytes after it. -/
def splitZero : Bytes → Option (Bytes × Bytes)
  | [] => none
  | byte :: rest =>
    if byte = 0 then some ([], rest)
    else (splitZero rest).map fun (name, after) => (byte :: name, after)

/-- The text followed by a zero byte. -/
def terminated (text : Bytes) : Bytes := text ++ [0]

/-- The bytes behind a field that states their number. -/
def sized (body : Bytes) : Bytes := ofNat 4 body.length ++ body

@[simp] theorem ofNat_length (count n : Nat) : (ofNat count n).length = count := by
  induction count generalizing n with
  | zero => rfl
  | succ count ih => simp [ofNat, ih]

theorem splitZero_append {bytes name rest : Bytes} (h : splitZero bytes = some (name, rest))
    (more : Bytes) : splitZero (bytes ++ more) = some (name, rest ++ more) := by
  induction bytes generalizing name with
  | nil => simp [splitZero] at h
  | cons byte tail ih =>
    by_cases hzero : byte = 0
    · simp_all [splitZero]
    · simp only [splitZero, hzero, if_false, Option.map_eq_some_iff] at h
      obtain ⟨⟨found, after⟩, hfound, heq⟩ := h
      simp only [Prod.mk.injEq] at heq
      obtain ⟨rfl, rfl⟩ := heq
      simp [splitZero, hzero, ih hfound]

/-- The name holds no zero byte, and it and the terminator are what precedes the rest. -/
theorem splitZero_eq_some {bytes name rest : Bytes} (h : splitZero bytes = some (name, rest)) :
    0 ∉ name ∧ bytes = name ++ 0 :: rest := by
  induction bytes generalizing name with
  | nil => simp [splitZero] at h
  | cons byte tail ih =>
    by_cases hzero : byte = 0
    · simp_all [splitZero]
    · simp only [splitZero, hzero, if_false, Option.map_eq_some_iff] at h
      obtain ⟨⟨found, after⟩, hfound, heq⟩ := h
      simp only [Prod.mk.injEq] at heq
      obtain ⟨rfl, rfl⟩ := heq
      obtain ⟨hmem, rfl⟩ := ih hfound
      exact ⟨by simp [hmem, Ne.symm hzero], rfl⟩

theorem splitZero_terminated {name : Bytes} (h : 0 ∉ name) (rest : Bytes) :
    splitZero (terminated name ++ rest) = some (name, rest) := by
  induction name with
  | nil => rfl
  | cons byte tail ih =>
    simp only [List.mem_cons, not_or] at h
    simp only [terminated, List.append_assoc, List.singleton_append] at ih
    simp [terminated, splitZero, Ne.symm h.1, ih h.2]

theorem splitZero_eq_none {bytes : Bytes} : splitZero bytes = none ↔ 0 ∉ bytes := by
  induction bytes with
  | nil => simp [splitZero]
  | cons byte tail ih =>
    by_cases hzero : byte = 0
    · simp [splitZero, hzero]
    · simp [splitZero, hzero, ih, Ne.symm hzero]

end Bytes

end Symbolizer
