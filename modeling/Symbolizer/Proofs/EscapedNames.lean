import Symbolizer.Proofs.AddressTexts
import Symbolizer.Text.Escape

/-! # Names in printable form

The printable form of a name holds no line end and nothing else that a terminal would act
on, whatever bytes the name consists of. Nothing is lost by it: what was written for a
byte is told apart from what follows, so the bytes can be read back one after another and
no two names have the same form.
-/

namespace Symbolizer

/-- The printable characters of ASCII, from the blank to the tilde. -/
def Printable (c : Char) : Prop := ' ' ≤ c ∧ c ≤ '~'

instance : DecidablePred Printable := fun _ => inferInstanceAs (Decidable (_ ∧ _))

def PrintableText (text : String) : Prop := ∀ c ∈ text.toList, Printable c

theorem PrintableText.ofList {text : List Char} (h : (text.all fun c => Printable c) = true) :
    PrintableText (String.ofList text) := by
  rw [PrintableText, String.toList_ofList]
  simpa using h

theorem PrintableText.append {first second : String} (h : PrintableText first)
    (hsecond : PrintableText second) : PrintableText (first ++ second) := by
  rw [PrintableText, String.toList_append]
  exact List.forall_mem_append.mpr ⟨h, hsecond⟩

theorem Printable.ne_newline {c : Char} (h : Printable c) : c ≠ '\n' := by
  rintro rfl
  exact absurd h (by decide)

namespace Hex

theorem printable_digit : ∀ value < 16, Printable (digit value) := by decide

theorem printableText_ofNat (n : Nat) : PrintableText (ofNat n) := by
  rw [PrintableText, ofNat, String.toList_ofList]
  refine List.forall_mem_cons.mpr ⟨by decide, List.forall_mem_cons.mpr ⟨by decide, ?_⟩⟩
  intro c hc
  obtain ⟨value, hvalue, rfl⟩ := exists_of_mem_digits hc
  exact printable_digit value hvalue

end Hex

namespace Escape

/-- The bytes that are written as a backslash and a letter or mark of their own. -/
def mnemonics : List (UInt8 × Char) :=
  [(0x09, 't'), (0x0a, 'n'), (0x0d, 'r'), (0x22, '"'), (0x27, '\''), (0x5c, '\\')]

/-- A byte is written by its mnemonic, as the character that it stands for, or by two digits. -/
inductive Writes (b : UInt8) : List Char → Prop
  | mnemonic {c : Char} (h : (b, c) ∈ mnemonics) : Writes b ['\\', c]
  | plain (hlow : 0x20 ≤ b) (hhigh : b ≤ 0x7e) (h : b ≠ 0x5c) : Writes b [Char.ofNat b.toNat]
  | digits : Writes b ('\\' :: 'x' :: Hex.fixedDigits 2 b.toNat)

theorem writes_byte (b : UInt8) : Writes b (byte b) := by
  unfold byte
  split_ifs with htab hfeed hreturn hquote hapostrophe hbackslash hplain
  · exact .mnemonic (by simp [htab, mnemonics])
  · exact .mnemonic (by simp [hfeed, mnemonics])
  · exact .mnemonic (by simp [hreturn, mnemonics])
  · exact .mnemonic (by simp [hquote, mnemonics])
  · exact .mnemonic (by simp [hapostrophe, mnemonics])
  · exact .mnemonic (by simp [hbackslash, mnemonics])
  · exact .plain hplain.1 hplain.2 hbackslash
  · exact .digits

theorem toNat_plain {b : UInt8} (hlow : 0x20 ≤ b) (hhigh : b ≤ 0x7e) :
    (Char.ofNat b.toNat).toNat = b.toNat ∧ Printable (Char.ofNat b.toNat) := by
  have hcheck : ∀ n < 0x7f, 0x20 ≤ n → (Char.ofNat n).toNat = n ∧ Printable (Char.ofNat n) := by
    decide
  rw [UInt8.le_iff_toNat_le] at hlow hhigh
  exact hcheck b.toNat (Nat.lt_succ_of_le hhigh) hlow

theorem printable_of_writes {b : UInt8} {text : List Char} (h : Writes b text) :
    ∀ c ∈ text, Printable c := by
  cases h with
  | mnemonic h =>
      have hletters : ∀ entry ∈ mnemonics, Printable entry.2 := by decide
      exact List.forall_mem_cons.mpr ⟨by decide, List.forall_mem_singleton.mpr (hletters _ h)⟩
  | plain hlow hhigh => exact List.forall_mem_singleton.mpr (toNat_plain hlow hhigh).2
  | digits =>
      refine List.forall_mem_cons.mpr ⟨by decide, List.forall_mem_cons.mpr ⟨by decide, ?_⟩⟩
      intro c hc
      obtain ⟨value, hvalue, rfl⟩ := Hex.exists_of_mem_fixedDigits hc
      exact Hex.printable_digit value hvalue

theorem printableText_text (name : Bytes) : PrintableText (text name) := by
  rw [PrintableText, text, String.toList_ofList]
  intro c hc
  obtain ⟨b, -, hb⟩ := List.mem_flatMap.mp hc
  exact printable_of_writes (writes_byte b) c hb

/-- The byte that is written in front of a text, and what follows it. -/
def readByte : List Char → Option (UInt8 × List Char)
  | '\\' :: 'x' :: high :: low :: rest => do
    let high ← Hex.digitValue? high
    let low ← Hex.digitValue? low
    some (UInt8.ofNat (16 * high + low), rest)
  | '\\' :: c :: rest => (mnemonics.find? (·.2 = c)).map fun entry => (entry.1, rest)
  | c :: rest => some (UInt8.ofNat c.toNat, rest)
  | [] => none

theorem readByte_mnemonic {b : UInt8} {c : Char} (h : (b, c) ∈ mnemonics) (rest : List Char) :
    readByte ('\\' :: c :: rest) = some (b, rest) := by
  simp only [mnemonics, List.mem_cons, Prod.mk.injEq, List.not_mem_nil, or_false] at h
  rcases h with ⟨rfl, rfl⟩ | ⟨rfl, rfl⟩ | ⟨rfl, rfl⟩ | ⟨rfl, rfl⟩ | ⟨rfl, rfl⟩ | ⟨rfl, rfl⟩
  all_goals rfl

theorem readByte_of_ne {c : Char} (h : c ≠ '\\') (rest : List Char) :
    readByte (c :: rest) = some (UInt8.ofNat c.toNat, rest) := by
  rw [readByte]
  · rintro high low rest rfl
    exact absurd rfl h
  · rintro other rest rfl
    exact absurd rfl h

/-- What is written for a byte is read back as that byte, whatever follows. -/
theorem readByte_append {b : UInt8} {text : List Char} (h : Writes b text) (rest : List Char) :
    readByte (text ++ rest) = some (b, rest) := by
  cases h with
  | mnemonic h => exact readByte_mnemonic h rest
  | plain hlow hhigh h =>
      have hvalue := (toNat_plain hlow hhigh).1
      have hne : Char.ofNat b.toNat ≠ '\\' := by
        intro heq
        rw [heq] at hvalue
        exact h (UInt8.toNat_inj.mp hvalue.symm)
      exact (readByte_of_ne hne rest).trans (by rw [hvalue, UInt8.ofNat_toNat])
  | digits =>
      have hb := b.toNat_lt
      simp only [Hex.fixedDigits, List.nil_append, List.cons_append, readByte,
        Hex.digitValue?_digit (Nat.mod_lt _ (by decide)), Option.bind_some, Option.bind_eq_bind]
      have hvalue : 16 * (b.toNat / 16 % 16) + b.toNat % 16 = b.toNat := by omega
      rw [hvalue, UInt8.ofNat_toNat]

theorem chars_injective {name other : Bytes} (h : chars name = chars other) : name = other := by
  induction name generalizing other with
  | nil =>
      cases other with
      | nil => rfl
      | cons b rest =>
          have hread := congrArg readByte h
          rw [chars, chars, List.flatMap_cons, readByte_append (writes_byte b)] at hread
          cases hread
  | cons a rest ih =>
      have hread := congrArg readByte h
      rw [chars, List.flatMap_cons, readByte_append (writes_byte a)] at hread
      cases other with
      | nil => cases hread
      | cons b rest' =>
          rw [chars, List.flatMap_cons, readByte_append (writes_byte b)] at hread
          simp only [Option.some.injEq, Prod.mk.injEq] at hread
          rw [hread.1, ih hread.2]

/-- No two names have the same printable form. -/
theorem text_injective {name other : Bytes} (h : text name = text other) : name = other :=
  chars_injective (String.ofList_injective h)

end Escape

end Symbolizer
