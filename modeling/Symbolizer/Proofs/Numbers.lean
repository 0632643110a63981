import Mathlib.Algebra.Order.Ring.Nat
import Symbolizer.Dwarf.Reader

/-! # Numbers read back

A number written in a fixed count of bytes is read back up to that many bytes. A number
in groups of seven bits is read back whole where it fits the width it is read at.
-/

namespace Symbolizer

namespace Bytes

theorem toNat_ofNat (count n : Nat) : toNat (ofNat count n) = n % 256 ^ count := by
  induction count generalizing n with
  | zero => simp [ofNat, toNat, Nat.mod_one]
  | succ count ih =>
    simp only [ofNat, toNat, ih, UInt8.toNat_ofNat', Nat.reducePow]
    rw [Nat.pow_succ, Nat.mul_comm _ 256, Nat.mod_mul]

end Bytes

namespace Dwarf

namespace Leb128

theorem length_encode_of_lt {n : Nat} (h : n < 128) : (encode n).length = 1 := by
  rw [encode, if_pos h]
  rfl

theorem unsigned_encode {width n : Nat} (hfits : n < 2 ^ width) (rest : Bytes) :
    unsigned width (encode n ++ rest) = .ok (n, rest) := by
  -- A byte takes seven bits of the width, so the induction is on the width.
  induction width using Nat.strongRecOn generalizing n with
  | ind width ih =>
    unfold encode
    by_cases hsmall : n < 128
    · have hbyte : (UInt8.ofNat n).toNat = n := by simp; omega
      simp only [hsmall, if_true, List.singleton_append, unsigned, hbyte]
      split <;> simp_all [Nat.one_shiftLeft]
    · have hwide : ¬width < 7 := by
        intro hlt
        have := Nat.pow_le_pow_right (n := 2) (by decide) (Nat.le_of_lt hlt)
        omega
      have hbyte : (UInt8.ofNat (n % 128 + 128)).toNat = n % 128 + 128 := by simp; omega
      have hpow : 2 ^ width = 128 * 2 ^ (width - 7) := by
        rw [show width = 7 + (width - 7) by omega, Nat.pow_add]
        simp
      have hrest := ih (width - 7) (by omega) (n := n / 128) (by omega)
      have hbig : ¬n % 128 + 128 < 128 := by omega
      simp only [hsmall, if_false, List.cons_append, unsigned, hwide, hbyte, hbig, hrest]
      simp [bind, Except.bind]
      omega

/-- A number fits when its groups fill whole bytes but for the sign. -/
theorem signed_encodeSigned {bits : Nat} {i : Int} (hbits : bits % 7 = 0)
    (hlow : -2 ^ bits ≤ i) (hhigh : i < 2 ^ bits) (rest : Bytes) :
    signed (bits + 1) (encodeSigned i ++ rest) = .ok (i, rest) := by
  induction bits using Nat.strongRecOn generalizing i with
  | ind bits ih =>
    have hbyte (n : Nat) (hn : n < 256) : (UInt8.ofNat n).toNat = n := by simp; omega
    unfold encodeSigned
    by_cases hnarrow : bits + 1 < 7
    · -- Nothing but the sign is left.
      obtain rfl : bits = 0 := by omega
      obtain rfl | rfl : i = 0 ∨ i = -1 := by omega
      · rfl
      · rfl
    · by_cases hsmall : -64 ≤ i ∧ i < 64
      · simp only [hsmall, and_self, if_true, List.singleton_append, signed, hnarrow, if_false,
          hbyte (i % 128).toNat (by omega)]
        split
        · simp
          omega
        · rw [if_pos (by omega)]
          simp
          omega
      · have hpow : (2 : Int) ^ bits = 128 * 2 ^ (bits - 7) := by
          rw [show bits = 7 + (bits - 7) by omega, Int.pow_add]
          simp
        have hrest := ih (bits - 7) (by omega) (i := i / 128) (by omega) (by omega) (by omega)
        rw [show bits - 7 + 1 = bits + 1 - 7 by omega] at hrest
        simp only [hsmall, if_false, List.cons_append, signed, hnarrow,
          hbyte ((i % 128).toNat + 128) (by omega), hrest]
        rw [if_neg (by omega), if_neg (by omega)]
        simp [bind, Except.bind]
        omega

end Leb128

namespace Reader

theorem word_append (count n : Nat) (rest : Bytes) :
    word count (Bytes.ofNat count n ++ rest) = .ok (n % 256 ^ count, rest) := by
  simp [word, Functor.map, StateT.map, take_append (Bytes.ofNat_length count n),
    Bytes.toNat_ofNat, bind, Except.bind, pure, Except.pure]

end Reader

end Dwarf

end Symbolizer
