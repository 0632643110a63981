import Symbolizer.Bounded

/-! # Truncated text

A buffer may cut a character after any of its bytes. What is left of such a character
could still have become one, so it is rendered as a single mark, and the characters in
front of it are rendered as themselves.
-/

namespace Symbolizer

namespace Lossy

/-- Bytes that may follow one another behind a lead byte, the first of them within its bounds. -/
def Continues : (low high : UInt8) → Bytes → Prop
  | _, _, [] => True
  | low, high, b :: rest => low ≤ b ∧ b ≤ high ∧ Continues 0x80 0xbf rest

/-- The value that bytes behind a lead byte add up to. -/
def valueBehind (value : Nat) (tail : Bytes) : Nat :=
  tail.foldl (fun value b => 64 * value + (b.toNat - 0x80)) value

variable {low high : UInt8} {tail : Bytes}

theorem following_append (h : Continues low high tail) (value : Nat) (rest : Bytes) :
    following value tail.length low high (tail ++ rest) =
      (some (valueBehind value tail), rest) := by
  induction tail generalizing value low high with
  | nil => simp [following, valueBehind]
  | cons b tail ih =>
      obtain ⟨hlow, hhigh, htail⟩ := h
      rw [List.length_cons, List.cons_append, following, if_pos ⟨hlow, hhigh⟩, ih htail,
        valueBehind, valueBehind, List.foldl_cons]

/-- Where bytes are missing, those that are there go into one mark. -/
theorem following_of_length_lt (h : Continues low high tail) (value : Nat) {count : Nat}
    (hcount : tail.length < count) : following value count low high tail = (none, []) := by
  induction tail generalizing value count low high with
  | nil =>
      cases count with
      | zero => cases hcount
      | succ count => rfl
  | cons b tail ih =>
      cases count with
      | zero => cases hcount
      | succ count =>
          obtain ⟨hlow, hhigh, htail⟩ := h
          rw [following, if_pos ⟨hlow, hhigh⟩, ih htail _ (Nat.lt_of_succ_lt_succ hcount)]

theorem Continues.take (h : Continues low high tail) (count : Nat) :
    Continues low high (tail.take count) := by
  induction tail generalizing low high count with
  | nil => simp [Continues]
  | cons b tail ih =>
      cases count with
      | zero => trivial
      | succ count => exact ⟨h.1, h.2.1, ih h.2.2 count⟩

/-- How a character of several bytes is spelled. -/
structure Spelled (c : Char) (b : UInt8) (lead : Lead) (tail : Bytes) : Prop where
  encode_eq : String.utf8EncodeChar c = b :: tail
  not_ascii : ¬b < 0x80
  lead_eq : Lead.of? b = some lead
  length_eq : tail.length = lead.following
  continues : Continues lead.low lead.high tail
  value_eq : valueBehind lead.payload tail = c.toNat

theorem two_eq_of? : ∀ payload < 0x20, 2 ≤ payload →
    Lead.of? (UInt8.ofNat (payload + 0xc0)) = some ⟨payload, 1, 0x80, 0xbf⟩ := by
  decide

theorem three_eq_of? : ∀ payload < 0x10,
    Lead.of? (UInt8.ofNat (payload + 0xe0)) = some
      ⟨payload, 2, if payload = 0 then 0xa0 else 0x80, if payload = 0xd then 0x9f else 0xbf⟩ := by
  decide

theorem four_eq_of? : ∀ payload < 5,
    Lead.of? (UInt8.ofNat (payload + 0xf0)) = some
      ⟨payload, 3, if payload = 0 then 0x90 else 0x80, if payload = 4 then 0x8f else 0xbf⟩ := by
  decide

theorem exists_spelled_two {c : Char} (hlow : 0x7f < c.toNat) (hhigh : c.toNat ≤ 0x7ff) :
    ∃ b lead tail, Spelled c b lead tail := by
  have hvalue : c.val.toNat = c.toNat := rfl
  refine ⟨_, _, [UInt8.ofNat (c.toNat % 0x40 + 0x80)], ?_, ?_,
    two_eq_of? (c.toNat / 64 % 0x20) (by omega) (by omega), rfl, ?_, ?_⟩
  · simp only [String.utf8EncodeChar, hvalue]
    rw [if_neg (by omega), if_pos (by omega)]
  · simp only [UInt8.lt_iff_toNat_lt, UInt8.toNat_ofNat', UInt8.reduceToNat]
    omega
  · simp only [Continues, UInt8.le_iff_toNat_le, UInt8.toNat_ofNat', UInt8.reduceToNat, and_true]
    omega
  · simp only [valueBehind, List.foldl, UInt8.toNat_ofNat']
    omega

theorem exists_spelled_three {c : Char} (hlow : 0x7ff < c.toNat) (hhigh : c.toNat ≤ 0xffff) :
    ∃ b lead tail, Spelled c b lead tail := by
  have hvalue : c.val.toNat = c.toNat := rfl
  have hscalar : c.toNat < 0xd800 ∨ 0xdfff < c.toNat := by
    rcases c.valid with h | h
    · exact .inl h
    · exact .inr h.1
  refine ⟨_, _, [UInt8.ofNat (c.toNat / 64 % 0x40 + 0x80), UInt8.ofNat (c.toNat % 0x40 + 0x80)],
    ?_, ?_, three_eq_of? (c.toNat / 4096 % 0x10) (by omega), rfl, ?_, ?_⟩
  · simp only [String.utf8EncodeChar, hvalue]
    rw [if_neg (by omega), if_neg (by omega), if_pos (by omega)]
  · simp only [UInt8.lt_iff_toNat_lt, UInt8.toNat_ofNat', UInt8.reduceToNat]
    omega
  · -- The bounds on the second byte leave out long forms and surrogates, which no character has.
    simp only [Continues, UInt8.le_iff_toNat_le, UInt8.toNat_ofNat', UInt8.reduceToNat, and_true,
      apply_ite UInt8.toNat]
    split <;> split <;> omega
  · simp only [valueBehind, List.foldl, UInt8.toNat_ofNat']
    omega

theorem exists_spelled_four {c : Char} (hlow : 0xffff < c.toNat) :
    ∃ b lead tail, Spelled c b lead tail := by
  have hvalue : c.val.toNat = c.toNat := rfl
  have hscalar : c.toNat < 0x110000 := by
    rcases c.valid with h | h
    · exact Nat.lt_trans h (by decide)
    · exact h.2
  refine ⟨_, _, [UInt8.ofNat (c.toNat / 4096 % 0x40 + 0x80),
    UInt8.ofNat (c.toNat / 64 % 0x40 + 0x80), UInt8.ofNat (c.toNat % 0x40 + 0x80)], ?_, ?_,
    four_eq_of? (c.toNat / 262144 % 0x08) (by omega), rfl, ?_, ?_⟩
  · simp only [String.utf8EncodeChar, hvalue]
    rw [if_neg (by omega), if_neg (by omega), if_neg (by omega)]
  · simp only [UInt8.lt_iff_toNat_lt, UInt8.toNat_ofNat', UInt8.reduceToNat]
    omega
  · simp only [Continues, UInt8.le_iff_toNat_le, UInt8.toNat_ofNat', UInt8.reduceToNat, and_true,
      apply_ite UInt8.toNat]
    split <;> split <;> omega
  · simp only [valueBehind, List.foldl, UInt8.toNat_ofNat']
    omega

theorem exists_spelled {c : Char} (h : 0x7f < c.toNat) : ∃ b lead tail, Spelled c b lead tail := by
  rcases Nat.lt_or_ge 0x7ff c.toNat with htwo | htwo
  · rcases Nat.lt_or_ge 0xffff c.toNat with hthree | hthree
    · exact exists_spelled_four hthree
    · exact exists_spelled_three htwo hthree
  · exact exists_spelled_two h htwo

theorem encode_of_ascii {c : Char} (h : c.toNat ≤ 0x7f) :
    String.utf8EncodeChar c = [UInt8.ofNat c.toNat] := if_pos h

/-- A whole character is read as itself, whatever comes behind it. -/
theorem chars_encode_append (c : Char) (rest : Bytes) :
    chars (String.utf8EncodeChar c ++ rest) = c :: chars rest := by
  rcases Nat.lt_or_ge 0x7f c.toNat with hlong | hascii
  · obtain ⟨b, lead, tail, h⟩ := exists_spelled hlong
    have hfirst : first b (tail ++ rest) = (c, rest) := by
      rw [first, if_neg h.not_ascii, h.lead_eq]
      simp only [← h.length_eq, following_append h.continues, h.value_eq, Char.ofNat_toNat]
    rw [h.encode_eq, List.cons_append, chars, hfirst]
  · have hbyte : (UInt8.ofNat c.toNat).toNat = c.toNat := by
      rw [UInt8.toNat_ofNat']
      omega
    have hlow : UInt8.ofNat c.toNat < 0x80 := by
      rw [UInt8.lt_iff_toNat_lt, hbyte]
      exact Nat.lt_succ_of_le hascii
    have hfirst : first (UInt8.ofNat c.toNat) rest = (c, rest) := by
      rw [first, if_pos hlow, hbyte, Char.ofNat_toNat]
    rw [encode_of_ascii hascii, List.singleton_append, chars, hfirst]

/-- A character that has lost bytes at its end is read as one mark. -/
theorem chars_take_encode {c : Char} {count : Nat} (hpos : 0 < count)
    (hcount : count < (String.utf8EncodeChar c).length) :
    chars ((String.utf8EncodeChar c).take count) = [mark] := by
  obtain ⟨count, rfl⟩ := Nat.exists_eq_add_one_of_ne_zero (Nat.ne_of_gt hpos)
  have hlong : 0x7f < c.toNat := by
    refine Nat.lt_of_not_le fun hascii => ?_
    rw [encode_of_ascii hascii, List.length_singleton] at hcount
    omega
  obtain ⟨b, lead, tail, h⟩ := exists_spelled hlong
  rw [h.encode_eq, List.length_cons] at hcount
  have hfirst : first b (tail.take count) = (mark, []) := by
    have hmissing : (tail.take count).length < lead.following := by
      rw [← h.length_eq, List.length_take]
      omega
    rw [first, if_neg h.not_ascii, h.lead_eq]
    simp only [following_of_length_lt (h.continues.take count) _ hmissing]
  rw [h.encode_eq, List.take_succ_cons, chars, hfirst, chars]

end Lossy

/-- The UTF-8 form of characters. -/
def Bytes.ofChars (chars : List Char) : Bytes := chars.flatMap String.utf8EncodeChar

theorem Bytes.ofChars_cons (c : Char) (rest : List Char) :
    ofChars (c :: rest) = String.utf8EncodeChar c ++ ofChars rest :=
  List.flatMap_cons

theorem Bytes.ofChars_toList (text : String) : ofChars text.toList = ofText text := rfl

namespace Bounded

/-- The characters in front of the first one that does not fit as a whole. -/
def fitting : (capacity : Nat) → List Char → List Char
  | _, [] => []
  | capacity, c :: rest =>
    if (String.utf8EncodeChar c).length ≤ capacity then
      c :: fitting (capacity - (String.utf8EncodeChar c).length) rest
    else []

theorem fitting_starts (capacity : Nat) (chars : List Char) : fitting capacity chars <+: chars := by
  induction chars generalizing capacity with
  | nil => exact List.nil_prefix
  | cons c rest ih =>
      rw [fitting]
      split
      · exact List.cons_prefix_cons.mpr ⟨rfl, ih _⟩
      · exact List.nil_prefix

theorem length_ofChars_fitting_le (capacity : Nat) (chars : List Char) :
    (Bytes.ofChars (fitting capacity chars)).length ≤ capacity := by
  induction chars generalizing capacity with
  | nil => exact Nat.zero_le _
  | cons c rest ih =>
      rw [fitting]
      split
      next hfits =>
        have hrest := ih (capacity - (String.utf8EncodeChar c).length)
        rw [Bytes.ofChars_cons, List.length_append]
        omega
      next => exact Nat.zero_le _

theorem starts_fitting {capacity : Nat} {chars other : List Char} (h : other <+: chars)
    (hfits : (Bytes.ofChars other).length ≤ capacity) : other <+: fitting capacity chars := by
  induction chars generalizing capacity other with
  | nil => exact h
  | cons c rest ih =>
      cases other with
      | nil => exact List.nil_prefix
      | cons d other =>
          obtain ⟨rfl, hrest⟩ := List.cons_prefix_cons.mp h
          rw [Bytes.ofChars_cons, List.length_append] at hfits
          rw [fitting, if_pos (by omega)]
          exact List.cons_prefix_cons.mpr ⟨rfl, ih hrest (by omega)⟩

/-- Behind the characters that fit there is one mark if bytes of a further one were kept. -/
theorem chars_take_ofChars (capacity : Nat) (chars : List Char) :
    Lossy.chars ((Bytes.ofChars chars).take capacity) = fitting capacity chars ++
      if (Bytes.ofChars (fitting capacity chars)).length <
        min capacity (Bytes.ofChars chars).length then [Lossy.mark] else [] := by
  induction chars generalizing capacity with
  | nil => simp [Bytes.ofChars, fitting, Lossy.chars]
  | cons c rest ih =>
      rw [fitting, Bytes.ofChars_cons, List.take_append]
      split
      next hfits =>
        rw [List.take_of_length_le hfits, Lossy.chars_encode_append, ih, Bytes.ofChars_cons,
          List.length_append, List.length_append, List.cons_append]
        congr 3
        simp only [eq_iff_iff]
        omega
      next hcut =>
        rw [Nat.sub_eq_zero_of_le (by omega), List.take_zero, List.append_nil, List.nil_append]
        -- A buffer that is full keeps no byte of the character, and any other keeps some.
        rcases Nat.eq_zero_or_pos capacity with rfl | hpos
        · simp [Lossy.chars]
        · have hlong : capacity < (String.utf8EncodeChar c).length := by omega
          rw [Lossy.chars_take_encode hpos hlong, if_pos]
          rw [List.length_append]
          exact Nat.lt_min.mpr ⟨hpos, Nat.lt_add_right _ (Nat.zero_lt_of_lt hlong)⟩

/-- The longest start of a text whose UTF-8 form fits. -/
structure LongestFitting (capacity : Nat) (text kept : String) : Prop where
  starts : kept.toList <+: text.toList
  fits : (Bytes.ofText kept).length ≤ capacity
  longest : ∀ other : String, other.toList <+: text.toList →
    (Bytes.ofText other).length ≤ capacity → other.length ≤ kept.length

theorem longestFitting_fitting (capacity : Nat) (text : String) :
    LongestFitting capacity text (.ofList (fitting capacity text.toList)) where
  starts := by
    rw [String.toList_ofList]
    exact fitting_starts _ _
  fits := by
    rw [← Bytes.ofChars_toList, String.toList_ofList]
    exact length_ofChars_fitting_le _ _
  longest other hstarts hfits := by
    rw [← String.length_toList, ← String.length_toList, String.toList_ofList]
    exact (starts_fitting hstarts hfits).length_le

theorem LongestFitting.unique {capacity : Nat} {text kept other : String}
    (h : LongestFitting capacity text kept) (hother : LongestFitting capacity text other) :
    kept = other := by
  have hle : kept.toList.length ≤ other.toList.length := by
    rw [String.length_toList, String.length_toList]
    exact hother.longest kept h.starts h.fits
  have hge : other.toList.length ≤ kept.toList.length := by
    rw [String.length_toList, String.length_toList]
    exact h.longest other hother.starts hother.fits
  have hlist : kept.toList = other.toList :=
    (List.prefix_of_prefix_length_le h.starts hother.starts hle).eq_of_length_le hge
  exact String.toList_inj.mp hlist

theorem LongestFitting.of_fits {capacity : Nat} {text : String}
    (h : (Bytes.ofText text).length ≤ capacity) : LongestFitting capacity text text where
  starts := List.prefix_refl _
  fits := h
  longest other hstarts _ := by
    rw [← String.length_toList, ← String.length_toList]
    exact hstarts.length_le

/-- A text is rendered as its longest start in whole characters that fits, and behind that one mark
if the buffer has kept bytes of the next character. A text that fits is rendered as it is. -/
theorem text_copyFrom_ofText {capacity : Nat} (buffer : Bounded capacity) (text : String) :
    (∃ kept, LongestFitting capacity text kept ∧
      (buffer.copyFrom (Bytes.ofText text)).text =
        kept ++ if (Bytes.ofText kept).length < min capacity (Bytes.ofText text).length then
          String.singleton Lossy.mark else "") ∧
    ((Bytes.ofText text).length ≤ capacity →
      (buffer.copyFrom (Bytes.ofText text)).text = text) := by
  have hrender : (buffer.copyFrom (Bytes.ofText text)).text =
      String.ofList (fitting capacity text.toList) ++
        if (Bytes.ofText (String.ofList (fitting capacity text.toList))).length <
          min capacity (Bytes.ofText text).length then String.singleton Lossy.mark else "" := by
    simp only [← Bytes.ofChars_toList, String.toList_ofList]
    rw [Bounded.text, contents_copyFrom, Lossy.text, chars_take_ofChars, String.ofList_append]
    congr 1
    split <;> rfl
  have hlongest := longestFitting_fitting capacity text
  refine ⟨⟨_, hlongest, hrender⟩, fun hfits => ?_⟩
  rw [hrender, hlongest.unique (.of_fits hfits), if_neg (by omega), String.append_empty]

/-- The second character takes two bytes. -/
def accented : String := "a\u00e9"

/-- Half of the second character becomes a mark. With one more cell it is kept, and with one cell
less nothing of it is left. -/
theorem accented_text :
    ((ofBytes (Bytes.ofText accented) : Bounded 1).text = "a") ∧
    ((ofBytes (Bytes.ofText accented) : Bounded 2).text = "a\uFFFD") ∧
    ((ofBytes (Bytes.ofText accented) : Bounded 3).text = accented) := by
  have hcut (capacity : Nat) (hfitting : fitting capacity accented.toList = ['a']) :
      LongestFitting capacity accented "a" := by
    have h := longestFitting_fitting capacity accented
    rwa [hfitting] at h
  obtain ⟨⟨one, hone, htextOne⟩, -⟩ := text_copyFrom_ofText (empty : Bounded 1) accented
  obtain ⟨⟨two, htwo, htextTwo⟩, -⟩ := text_copyFrom_ofText (empty : Bounded 2) accented
  obtain rfl := hone.unique (hcut 1 (by decide))
  obtain rfl := htwo.unique (hcut 2 (by decide))
  exact ⟨htextOne.trans (by decide), htextTwo.trans (by decide),
    (text_copyFrom_ofText (empty : Bounded 3) accented).2 (by decide)⟩

end Bounded

end Symbolizer
