import Symbolizer.Bytes

/-! # Lossy rendering of UTF-8

Well-formed sequences become their characters. Every longest start of a sequence
that could have been well formed, and every byte that starts none, becomes one
replacement mark.
-/

namespace Symbolizer.Lossy

def mark : Char := '\uFFFD'

/-- What a lead byte announces: its payload, how many bytes follow it, and the bounds on
the first of them, which exclude surrogates, long forms and values past the last character. -/
structure Lead where
  payload : Nat
  following : Nat
  low : UInt8
  high : UInt8
  deriving DecidableEq, Repr

def Lead.of? (b : UInt8) : Option Lead :=
  if 0xc2 ≤ b ∧ b ≤ 0xdf then some ⟨b.toNat - 0xc0, 1, 0x80, 0xbf⟩
  else if b = 0xe0 then some ⟨0, 2, 0xa0, 0xbf⟩
  else if b = 0xed then some ⟨0xd, 2, 0x80, 0x9f⟩
  else if 0xe1 ≤ b ∧ b ≤ 0xef then some ⟨b.toNat - 0xe0, 2, 0x80, 0xbf⟩
  else if b = 0xf0 then some ⟨0, 3, 0x90, 0xbf⟩
  else if 0xf1 ≤ b ∧ b ≤ 0xf3 then some ⟨b.toNat - 0xf0, 3, 0x80, 0xbf⟩
  else if b = 0xf4 then some ⟨4, 3, 0x80, 0x8f⟩
  else none

/-- The bytes that follow a lead byte. Gives the scalar value if all of them are there, and
the bytes behind the last one that fits. -/
def following (value : Nat) : (count : Nat) → (low high : UInt8) → Bytes → Option Nat × Bytes
  | 0, _, _, bytes => (some value, bytes)
  | _ + 1, _, _, [] => (none, [])
  | count + 1, low, high, b :: rest =>
    if low ≤ b ∧ b ≤ high then
      following (64 * value + (b.toNat - 0x80)) count 0x80 0xbf rest
    else (none, b :: rest)

theorem following_length_le (value count : Nat) (low high : UInt8) (bytes : Bytes) :
    (following value count low high bytes).2.length ≤ bytes.length := by
  induction bytes generalizing value count low high with
  | nil => cases count <;> simp [following]
  | cons b rest ih =>
    cases count with
    | zero => simp [following]
    | succ count =>
      simp only [following]
      split
      · exact Nat.le_succ_of_le (ih ..)
      · simp

/-- The first character, or the mark that stands for a malformed start, and the bytes after it. -/
def first (b : UInt8) (rest : Bytes) : Char × Bytes :=
  if b < 0x80 then (Char.ofNat b.toNat, rest)
  else match Lead.of? b with
    | none => (mark, rest)
    | some lead =>
      match following lead.payload lead.following lead.low lead.high rest with
      | (some value, after) => (Char.ofNat value, after)
      | (none, after) => (mark, after)

theorem first_length_le (b : UInt8) (rest : Bytes) :
    (first b rest).2.length ≤ rest.length := by
  unfold first
  split
  · simp
  · cases Lead.of? b with
    | none => simp
    | some lead =>
      have hle := following_length_le lead.payload lead.following lead.low lead.high rest
      dsimp only
      split <;> simp_all

def chars : Bytes → List Char
  | [] => []
  | b :: rest => (first b rest).1 :: chars (first b rest).2
termination_by bytes => bytes.length
decreasing_by exact Nat.lt_succ_of_le (first_length_le b rest)

def text (bytes : Bytes) : String := String.ofList (chars bytes)

end Symbolizer.Lossy
