import Symbolizer.Bytes
import Symbolizer.Dwarf.DecodeError

/-! # Numbers in groups of seven bits

A number is written seven bits to the byte, least significant group first; the high
bit of a byte says that another follows.
-/

namespace Symbolizer.Dwarf.Leb128

/-- Reads a number of at most `width` bits. Where fewer than seven bits are left, the byte
must hold no more than those. -/
def unsigned (width : Nat) : Bytes → Except DecodeError (Nat × Bytes)
  | [] => .error .endOfInput
  | byte :: rest =>
    if width < 7 then
      if byte.toNat < 1 <<< width then .ok (byte.toNat, rest) else .error .badUnsigned
    else if byte.toNat < 128 then .ok (byte.toNat, rest)
    else do
      let (high, rest) ← unsigned (width - 7) rest
      .ok (byte.toNat % 128 + 128 * high, rest)

/-- Reads a number in two's complement of at most `width` bits. Where fewer than seven bits are
left, the byte must be all sign. -/
def signed (width : Nat) : Bytes → Except DecodeError (Int × Bytes)
  | [] => .error .endOfInput
  | byte :: rest =>
    if width < 7 then
      if byte = 0 then .ok (0, rest)
      else if byte = 0x7f then .ok (-1, rest)
      else .error .badSigned
    else if byte.toNat < 64 then .ok (byte.toNat, rest)
    else if byte.toNat < 128 then .ok (byte.toNat - 128, rest)
    else do
      let (high, rest) ← signed (width - 7) rest
      .ok ((byte.toNat % 128 : Nat) + 128 * high, rest)

/-- The shortest form of a number. -/
def encode (n : Nat) : Bytes :=
  if n < 128 then [UInt8.ofNat n] else UInt8.ofNat (n % 128 + 128) :: encode (n / 128)

/-- The shortest form of a number in two's complement. -/
def encodeSigned (i : Int) : Bytes :=
  if -64 ≤ i ∧ i < 64 then [UInt8.ofNat (i % 128).toNat]
  else UInt8.ofNat ((i % 128).toNat + 128) :: encodeSigned (i / 128)
termination_by i.natAbs
decreasing_by omega

theorem unsigned_length {width n : Nat} {bytes rest : Bytes}
    (h : unsigned width bytes = .ok (n, rest)) : rest.length < bytes.length := by
  induction bytes generalizing width n with
  | nil => simp [unsigned] at h
  | cons byte tail ih =>
    simp only [unsigned] at h
    split at h
    · split at h <;> simp_all
    · split at h
      · simp_all
      · cases hread : unsigned (width - 7) tail with
        | error e => rw [hread] at h; cases h
        | ok read =>
          rw [hread] at h
          cases h
          exact Nat.lt_succ_of_lt (ih hread)

end Symbolizer.Dwarf.Leb128
