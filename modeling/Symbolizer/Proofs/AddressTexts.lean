import Mathlib.Algebra.Order.Ring.Nat
import Mathlib.Data.List.TakeWhile
import Symbolizer.CommandLine
import Symbolizer.Proofs.Outcomes

/-! # Texts of addresses

An address on the command line is a number in hexadecimal digits. It is accepted exactly
if nothing but digits is left of its text once one mark, the separators and one plus sign
are taken away, and if their value fits. Of the faults a missing text is found first; a
value that is too large is found before a bad digit behind it.
-/

namespace Symbolizer.Hex

/-- The text without one mark at its start and then without separators. -/
def bare (text : List Char) : List Char :=
  (if ['0', 'x'] <+: text ∨ ['0', 'X'] <+: text then text.drop 2 else text).filter (· ≠ '_')

/-- The text without one plus sign at its start. -/
def unsigned (text : List Char) : List Char :=
  if text.head? = some '+' then text.tail else text

/-- The longest run of digits at the start, behind one plus sign. -/
def leadingDigits (text : List Char) : List Char := (unsigned text).takeWhile Char.isHexDigit

/-- The value of digits behind others whose value is given. -/
def valueBehind (value : Nat) (digits : List Char) : Nat :=
  digits.foldl (fun value c => 16 * value + (digitValue? c).getD 0) value

/-- Digits of a number, with one plus sign in front or with none. -/
def Denotes (text : List Char) (n : Nat) : Prop :=
  ∃ digits, (text = digits ∨ text = '+' :: digits) ∧ digits ≠ [] ∧
    (∀ c ∈ digits, c.isHexDigit = true) ∧ valueBehind 0 digits = n

theorem withoutMark_eq (text : List Char) :
    withoutMark text =
      if ['0', 'x'] <+: text ∨ ['0', 'X'] <+: text then text.drop 2 else text := by
  fun_cases withoutMark text with
  | case1 rest => simp
  | case2 rest => simp
  | case3 text hlower hupper =>
      rw [if_neg]
      rintro (⟨rest, rfl⟩ | ⟨rest, rfl⟩)
      · exact hlower rest rfl
      · exact hupper rest rfl

theorem parse_eq_parseNumber (text : List Char) : parse text = parseNumber (bare text) := by
  rw [parse, withoutMark_eq, bare]

theorem isSome_digitValue? (c : Char) : (digitValue? c).isSome = c.isHexDigit := by
  rw [Bool.eq_iff_iff]
  simp only [digitValue?, Char.isHexDigit, Char.isDigit, Char.le_def, ge_iff_le, Bool.or_eq_true,
    Bool.and_eq_true, decide_eq_true_eq]
  split
  next hten => exact iff_of_true rfl (.inl (.inl hten))
  next hten =>
    split
    next hlower => exact iff_of_true rfl (.inl (.inr hlower))
    next hlower =>
      split
      next hupper => exact iff_of_true rfl (.inr hupper)
      next hupper =>
        refine iff_of_false Bool.false_ne_true ?_
        rintro ((h | h) | h)
        · exact hten h
        · exact hlower h
        · exact hupper h

theorem le_valueBehind (value : Nat) (digits : List Char) : value ≤ valueBehind value digits := by
  induction digits generalizing value with
  | nil => exact Nat.le_refl _
  | cons c rest ih =>
      have hrest := ih (16 * value + (digitValue? c).getD 0)
      rw [valueBehind, List.foldl_cons, ← valueBehind]
      omega

/-- Digits are read one by one until the value is too large or something else is met. -/
theorem parseDigits_eq {value : Nat} (hvalue : value < UInt64.size) (text : List Char) :
    parseDigits value text =
      if UInt64.size ≤ valueBehind value (text.takeWhile Char.isHexDigit) then .error .tooLarge
      else if text.all Char.isHexDigit then .ok (UInt64.ofNat (valueBehind value text))
      else .error .invalidDigit := by
  induction text generalizing value with
  | nil =>
      rw [parseDigits, List.takeWhile_nil]
      exact (if_neg (Nat.not_le_of_lt hvalue)).symm
  | cons c rest ih =>
      cases hdigit : digitValue? c with
      | none =>
          have hother : c.isHexDigit = false := by rw [← isSome_digitValue?, hdigit]; rfl
          rw [parseDigits, hdigit, List.takeWhile_cons, List.all_cons, hother]
          exact (if_neg (Nat.not_le_of_lt hvalue)).symm
      | some d =>
          have hown : c.isHexDigit = true := by rw [← isSome_digitValue?, hdigit]; rfl
          have hstep (digits : List Char) :
              valueBehind value (c :: digits) = valueBehind (16 * value + d) digits := by
            rw [valueBehind, List.foldl_cons, hdigit]
            rfl
          rw [parseDigits, hdigit, List.takeWhile_cons, List.all_cons, hown]
          simp only [if_true, Bool.true_and, hstep]
          split
          next hfits => exact ih hfits
          next hlarge =>
            -- Further digits of the run only add to the value, so it stays too large.
            have hgrows := le_valueBehind (16 * value + d) (rest.takeWhile Char.isHexDigit)
            rw [if_pos (by omega)]

theorem parseNumber_eq {text : List Char} (h : text ≠ []) :
    parseNumber text =
      if UInt64.size ≤ valueBehind 0 (leadingDigits text) then .error .tooLarge
      else if unsigned text ≠ [] ∧ (unsigned text).all Char.isHexDigit then
        .ok (UInt64.ofNat (valueBehind 0 (unsigned text)))
      else .error .invalidDigit := by
  have hzero : 0 < UInt64.size := by decide
  fun_cases parseNumber text with
  | case1 => exact absurd rfl h
  | case2 => rfl
  | case3 rest hrest =>
      have hplain : unsigned ('+' :: rest) = rest := rfl
      have hne : rest ≠ [] := fun hnil => hrest hnil
      rw [parseDigits_eq hzero, leadingDigits, hplain]
      simp only [ne_eq, hne, not_false_eq_true, true_and]
  | case4 text _ _ hplus =>
      have hplain : unsigned text = text := by
        rw [unsigned, if_neg]
        intro hhead
        obtain ⟨rest, rfl⟩ := List.head?_eq_some_iff.mp hhead
        exact hplus rest rfl
      rw [parseDigits_eq hzero, leadingDigits, hplain]
      simp only [ne_eq, h, not_false_eq_true, true_and]

theorem denotes_iff {text : List Char} {n : Nat} :
    Denotes text n ↔ unsigned text ≠ [] ∧ (unsigned text).all Char.isHexDigit = true ∧
      valueBehind 0 (unsigned text) = n := by
  constructor
  · rintro ⟨digits, htext, hne, hdigits, hvalue⟩
    have hplain : unsigned text = digits := by
      rcases htext with rfl | rfl
      · rw [unsigned, if_neg]
        intro hhead
        exact absurd (hdigits '+' (List.mem_of_head? hhead)) (by decide)
      · rfl
    rw [hplain]
    exact ⟨hne, List.all_eq_true.mpr hdigits, hvalue⟩
  · rintro ⟨hne, hdigits, hvalue⟩
    refine ⟨unsigned text, ?_, hne, List.all_eq_true.mp hdigits, hvalue⟩
    by_cases hplus : text.head? = some '+'
    · obtain ⟨rest, rfl⟩ := List.head?_eq_some_iff.mp hplus
      exact .inr rfl
    · exact .inl (if_neg hplus).symm

namespace Denotes

variable {text : List Char} {n m : Nat}

theorem ne_nil (h : Denotes text n) : text ≠ [] := by
  rintro rfl
  exact (denotes_iff.mp h).1 rfl

theorem value_leadingDigits (h : Denotes text n) : valueBehind 0 (leadingDigits text) = n := by
  obtain ⟨-, hdigits, hvalue⟩ := denotes_iff.mp h
  rw [leadingDigits, List.takeWhile_eq_self_iff.mpr (List.all_eq_true.mp hdigits), hvalue]

theorem unique (h : Denotes text n) (hother : Denotes text m) : n = m :=
  h.value_leadingDigits.symm.trans hother.value_leadingDigits

end Denotes

/-- What comes of a text without mark and separators. -/
inductive Reading (text : List Char) : Except Fault Address → Prop
  | empty (h : text = []) : Reading text (.error .empty)
  | tooLarge (h : UInt64.size ≤ valueBehind 0 (leadingDigits text)) :
    Reading text (.error .tooLarge)
  | number {address : Address} (h : Denotes text address.toNat) : Reading text (.ok address)
  | invalidDigit (hne : text ≠ []) (hfits : valueBehind 0 (leadingDigits text) < UInt64.size)
    (hnone : ∀ address : Address, ¬Denotes text address.toNat) :
    Reading text (.error .invalidDigit)

theorem reading_parseNumber (text : List Char) : Reading text (parseNumber text) := by
  rcases eq_or_ne text [] with rfl | hne
  · exact .empty rfl
  · rw [parseNumber_eq hne]
    split
    next hlarge => exact .tooLarge hlarge
    next hfits =>
      split
      next hdigits =>
        have hdenotes : Denotes text (valueBehind 0 (unsigned text)) :=
          denotes_iff.mpr ⟨hdigits.1, hdigits.2, rfl⟩
        have hlt : valueBehind 0 (unsigned text) < UInt64.size := by
          rw [← hdenotes.value_leadingDigits]
          exact Nat.lt_of_not_le hfits
        refine .number ?_
        rwa [UInt64.toNat_ofNat_of_lt' hlt]
      next hother =>
        refine .invalidDigit hne (Nat.lt_of_not_le hfits) fun _ hdenotes => hother ?_
        obtain ⟨hsome, hdigits, -⟩ := denotes_iff.mp hdenotes
        exact ⟨hsome, hdigits⟩

/-- No text has two readings. -/
theorem Reading.unique {text : List Char} {outcome other : Except Fault Address}
    (h : Reading text outcome) (hother : Reading text other) : outcome = other := by
  have hnil : valueBehind 0 (leadingDigits []) < UInt64.size := by decide
  have hfits {address : Address} (h : Denotes text address.toNat) :
      valueBehind 0 (leadingDigits text) < UInt64.size :=
    h.value_leadingDigits ▸ address.toNat_lt_size
  cases h with
  | empty h =>
      subst h
      cases hother with
      | empty => rfl
      | tooLarge hlarge => exact absurd hnil (Nat.not_lt_of_le hlarge)
      | number hnumber => exact absurd rfl hnumber.ne_nil
      | invalidDigit hne => exact absurd rfl hne
  | tooLarge hlarge =>
      cases hother with
      | empty h => exact absurd hnil (Nat.not_lt_of_le (h ▸ hlarge))
      | tooLarge => rfl
      | number hnumber => exact absurd (hfits hnumber) (Nat.not_lt_of_le hlarge)
      | invalidDigit _ hsmall => exact absurd hsmall (Nat.not_lt_of_le hlarge)
  | number hnumber =>
      cases hother with
      | empty h => exact absurd h hnumber.ne_nil
      | tooLarge hlarge => exact absurd (hfits hnumber) (Nat.not_lt_of_le hlarge)
      | number h => exact congrArg Except.ok (UInt64.toNat_inj.mp (hnumber.unique h))
      | invalidDigit _ _ hnone => exact absurd hnumber (hnone _)
  | invalidDigit hne hsmall hnone =>
      cases hother with
      | empty h => exact absurd h hne
      | tooLarge hlarge => exact absurd hsmall (Nat.not_lt_of_le hlarge)
      | number h => exact absurd h (hnone _)
      | invalidDigit => rfl

theorem parse_eq_iff {text : List Char} {outcome : Except Fault Address} :
    parse text = outcome ↔ Reading (bare text) outcome := by
  rw [parse_eq_parseNumber]
  exact ⟨fun h => h ▸ reading_parseNumber _, (reading_parseNumber _).unique⟩

section Digits

theorem digitValue?_digit {value : Nat} (h : value < 16) :
    digitValue? (digit value) = some value := by
  revert value
  decide

theorem digit_plain : ∀ value < 16, digit value ≠ '_' ∧ (digit value).toLower = digit value := by
  decide

theorem length_fixedDigits (count n : Nat) : (fixedDigits count n).length = count := by
  induction count generalizing n with
  | zero => rfl
  | succ count ih => simp [fixedDigits, ih]

theorem exists_of_mem_fixedDigits {count n : Nat} {c : Char} (h : c ∈ fixedDigits count n) :
    ∃ value < 16, c = digit value := by
  induction count generalizing n with
  | zero => cases h
  | succ count ih =>
      rcases List.mem_append.mp h with h | h
      · exact ih h
      · exact ⟨n % 16, Nat.mod_lt n (by decide), List.mem_singleton.mp h⟩

theorem exists_of_mem_digits {n : Nat} {c : Char} (h : c ∈ digits n) :
    ∃ value < 16, c = digit value := by
  fun_induction digits n with
  | case1 n hsmall => exact ⟨n, hsmall, List.mem_singleton.mp h⟩
  | case2 n hlarge ih =>
      rcases List.mem_append.mp h with h | h
      · exact ih h
      · exact ⟨n % 16, Nat.mod_lt n (by decide), List.mem_singleton.mp h⟩

theorem digits_ne_nil (n : Nat) : digits n ≠ [] := by
  rw [digits]
  split <;> simp

theorem fixedDigits_zero (count : Nat) : fixedDigits count 0 = List.replicate count '0' := by
  induction count with
  | zero => rfl
  | succ count ih =>
      rw [fixedDigits, Nat.zero_div, ih, List.replicate_succ']
      rfl

/-- All places of a number are its digits behind zeros. -/
theorem exists_fixedDigits_eq {count n : Nat} (hcount : 0 < count) (hn : n < 16 ^ count) :
    ∃ zeros, fixedDigits count n = List.replicate zeros '0' ++ digits n := by
  induction count generalizing n with
  | zero => cases hcount
  | succ count ih =>
      rw [fixedDigits, digits]
      split
      next hsmall =>
        refine ⟨count, ?_⟩
        rw [Nat.div_eq_of_lt hsmall, fixedDigits_zero, Nat.mod_eq_of_lt hsmall]
      next hlarge =>
        have hrest : n / 16 < 16 ^ count := by
          rw [Nat.pow_succ] at hn
          exact Nat.div_lt_of_lt_mul (by omega)
        have hpos : 0 < count := by
          refine Nat.pos_of_ne_zero ?_
          rintro rfl
          omega
        obtain ⟨zeros, hzeros⟩ := ih hpos hrest
        exact ⟨zeros, by rw [hzeros, List.append_assoc]⟩

/-- Letters mean the same in either case. -/
theorem digitValue?_toLower (c : Char) : digitValue? c.toLower = digitValue? c := by
  by_cases hupper : 65 ≤ c.val ∧ c.val ≤ 90
  · have hcheck : ∀ n < 91, 65 ≤ n →
        digitValue? (Char.ofNat n).toLower = digitValue? (Char.ofNat n) := by decide
    have hbounds : 65 ≤ c.toNat ∧ c.toNat ≤ 90 :=
      hupper.imp UInt32.le_iff_toNat_le.mp UInt32.le_iff_toNat_le.mp
    have hown := hcheck c.toNat (by omega) hbounds.1
    rwa [Char.ofNat_toNat] at hown
  · exact congrArg digitValue? (dif_neg hupper)

theorem valueBehind_map_toLower (value : Nat) (text : List Char) :
    valueBehind value (text.map Char.toLower) = valueBehind value text := by
  simp only [valueBehind, List.foldl_map, digitValue?_toLower]

theorem valueBehind_append (value : Nat) (first second : List Char) :
    valueBehind value (first ++ second) = valueBehind (valueBehind value first) second :=
  List.foldl_append

theorem valueBehind_zeros (count : Nat) : valueBehind 0 (List.replicate count '0') = 0 := by
  induction count with
  | zero => rfl
  | succ count ih => exact ih

theorem valueBehind_digits (n : Nat) : valueBehind 0 (digits n) = n := by
  fun_induction digits n with
  | case1 n hsmall => simp [valueBehind, digitValue?_digit hsmall]
  | case2 n hlarge ih =>
      rw [valueBehind_append, ih]
      simp only [valueBehind, List.foldl_cons, List.foldl_nil,
        digitValue?_digit (Nat.mod_lt n (by decide)), Option.getD_some]
      omega

end Digits

/-- A form in which an address may be written: behind a mark, or without one, its digits in either
case, with zeros in front and separators anywhere. -/
def Renders (text : List Char) (address : Address) : Prop :=
  ∃ mark ∈ [[], ['0', 'x'], ['0', 'X']], ∃ body zeros, text = mark ++ body ∧
    (body.filter (· ≠ '_')).map Char.toLower = List.replicate zeros '0' ++ digits address.toNat

theorem renders_padded (address : Address) : Renders (padded address).toList address := by
  have hfits : address.toNat < 16 ^ 16 := by
    have := address.toNat_lt
    omega
  obtain ⟨zeros, hzeros⟩ := exists_fixedDigits_eq (by decide : 0 < 16) hfits
  have hplain : ∀ c ∈ fixedDigits 16 address.toNat, c ≠ '_' ∧ c.toLower = c := by
    intro c hc
    obtain ⟨value, hvalue, rfl⟩ := exists_of_mem_fixedDigits hc
    exact digit_plain value hvalue
  have htext : (padded address).toList = ['0', 'x'] ++ fixedDigits 16 address.toNat := by
    rw [padded, String.toList_ofList, List.cons_append, List.cons_append, List.nil_append]
  refine ⟨['0', 'x'], by simp, fixedDigits 16 address.toNat, zeros, htext, ?_⟩
  rw [List.filter_eq_self.mpr fun c hc => by simpa using (hplain c hc).1,
    List.map_congr_left fun c hc => (hplain c hc).2, List.map_id', hzeros]

/-- Nothing but digits is left of a rendering. -/
theorem denotes_of_renders {text : List Char} {address : Address} (h : Renders text address) :
    Denotes (bare text) address.toNat := by
  obtain ⟨mark, hmark, body, zeros, rfl, hbody⟩ := h
  have hdigits : ∀ c ∈ body.filter (· ≠ '_'), c.isHexDigit = true := by
    intro c hc
    have hlower : c.toLower ∈ List.replicate zeros '0' ++ digits address.toNat :=
      hbody ▸ List.mem_map_of_mem hc
    obtain ⟨value, hvalue, hdigit⟩ : ∃ value < 16, c.toLower = digit value := by
      rcases List.mem_append.mp hlower with hzero | hown
      · exact ⟨0, by decide, List.eq_of_mem_replicate hzero⟩
      · exact exists_of_mem_digits hown
    rw [← isSome_digitValue?, ← digitValue?_toLower, hdigit, digitValue?_digit hvalue]
    rfl
  have hbare : bare (mark ++ body) = body.filter (· ≠ '_') := by
    rw [bare]
    simp only [List.mem_cons, List.not_mem_nil, or_false] at hmark
    rcases hmark with rfl | rfl | rfl
    · -- Without a mark the body itself must not start with one, since its letters are no digits.
      rw [List.nil_append, if_neg]
      rintro (⟨rest, rfl⟩ | ⟨rest, rfl⟩)
      · exact absurd (hdigits 'x' (by simp)) (by decide)
      · exact absurd (hdigits 'X' (by simp)) (by decide)
    · rw [if_pos (.inl (List.prefix_append _ _))]
      rfl
    · rw [if_pos (.inr (List.prefix_append _ _))]
      rfl
  refine ⟨_, .inl rfl, ?_, hbare ▸ hdigits, ?_⟩
  · rw [hbare]
    intro hnil
    rw [hnil] at hbody
    exact digits_ne_nil _ (List.append_eq_nil_iff.mp hbody.symm).2
  · rw [hbare, ← valueBehind_map_toLower, hbody, valueBehind_append, valueBehind_zeros,
      valueBehind_digits]

end Symbolizer.Hex

namespace Symbolizer.CommandLine

theorem parseAddress_eq_ok_iff {text : String} {address : Address} :
    parseAddress text = .ok address ↔ Hex.Reading (Hex.bare text.toList) (.ok address) :=
  Except.mapError_eq_ok_iff.trans Hex.parse_eq_iff

theorem parseAddress_eq_error_iff {text : String} {fault : Hex.Fault} :
    parseAddress text = .error (.badAddress text fault) ↔
      Hex.Reading (Hex.bare text.toList) (.error fault) := by
  rw [parseAddress, Except.mapError_eq_error_iff, ← Hex.parse_eq_iff]
  simp

/-- An address is read exactly from the texts of digits whose value fits, and any other text is
refused by name, with the fault that it has. However an address is written, also with all its
places as records show it, it is read back. -/
theorem parseAddress_accepts_exactly (text : String) :
    (∀ address, parseAddress text = .ok address ↔
      Hex.Denotes (Hex.bare text.toList) address.toNat) ∧
    (parseAddress text = .error (.badAddress text .empty) ↔ Hex.bare text.toList = []) ∧
    (parseAddress text = .error (.badAddress text .tooLarge) ↔
      UInt64.size ≤ Hex.valueBehind 0 (Hex.leadingDigits (Hex.bare text.toList))) ∧
    (parseAddress text = .error (.badAddress text .invalidDigit) ↔
      Hex.bare text.toList ≠ [] ∧
      Hex.valueBehind 0 (Hex.leadingDigits (Hex.bare text.toList)) < UInt64.size ∧
      ∀ address : Address, ¬Hex.Denotes (Hex.bare text.toList) address.toNat) ∧
    (∀ error, parseAddress text = .error error → ∃ fault, error = .badAddress text fault ∧
      error.message = "bad address `" ++ text ++ "`: " ++ fault.message) ∧
    ∀ address, (Hex.Renders text.toList address → parseAddress text = .ok address) ∧
      parseAddress (Hex.padded address) = .ok address := by
  have hrenders {text : String} {address : Address} (h : Hex.Renders text.toList address) :
      parseAddress text = .ok address :=
    parseAddress_eq_ok_iff.mpr (.number (Hex.denotes_of_renders h))
  refine ⟨fun address => parseAddress_eq_ok_iff.trans ⟨fun | .number h => h, .number⟩,
    parseAddress_eq_error_iff.trans ⟨fun | .empty h => h, .empty⟩,
    parseAddress_eq_error_iff.trans ⟨fun | .tooLarge h => h, .tooLarge⟩,
    parseAddress_eq_error_iff.trans ⟨fun h => ?_, fun h => .invalidDigit h.1 h.2.1 h.2.2⟩,
    fun error herror => ?_,
    fun address => ⟨hrenders, hrenders (Hex.renders_padded address)⟩⟩
  · cases h with
    | invalidDigit hne hfits hnone => exact ⟨hne, hfits, hnone⟩
  · obtain ⟨fault, -, rfl⟩ := Except.mapError_eq_error_iff.mp herror
    exact ⟨fault, rfl, rfl⟩

/-- A value of seventeen digits is too large even with a bad digit behind them, and one of sixteen
digits is not, so that the bad digit is found. -/
theorem largeText_refused :
    parseAddress "0X_00fF" = .ok 0xff ∧
    parseAddress "+1_0000_0000_0000_0000g" =
      .error (.badAddress "+1_0000_0000_0000_0000g" .tooLarge) ∧
    parseAddress "+1000_0000_0000_0000g" =
      .error (.badAddress "+1000_0000_0000_0000g" .invalidDigit) ∧
    parseAddress "0x__" = .error (.badAddress "0x__" .empty) := by
  have hrenders : Hex.Renders "0X_00fF".toList 0xff :=
    ⟨['0', 'X'], by simp, "_00fF".toList, 2, by decide, by decide +kernel⟩
  obtain ⟨-, -, -, -, -, haccepts⟩ := parseAddress_accepts_exactly "0X_00fF"
  obtain ⟨-, -, hlarge, -⟩ := parseAddress_accepts_exactly "+1_0000_0000_0000_0000g"
  obtain ⟨-, -, -, hbad, -⟩ := parseAddress_accepts_exactly "+1000_0000_0000_0000g"
  obtain ⟨-, hempty, -⟩ := parseAddress_accepts_exactly "0x__"
  refine ⟨(haccepts 0xff).1 hrenders, hlarge.mpr (by decide), hbad.mpr ⟨by decide, by decide, ?_⟩,
    hempty.mpr (by decide)⟩
  intro address h
  exact absurd (Hex.denotes_iff.mp h).2.1 (by decide)

end Symbolizer.CommandLine
