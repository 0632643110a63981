import Mathlib.Data.List.DropRight
import Symbolizer.Message
import Symbolizer.Proofs.EscapedNames

/-! # The lines of a message

A message is a line of printable characters behind the mark of the reporter, since names
are written in printable form and all else is fixed text or a number. There is one
exception: three texts about faulty abbreviations have a line end of their own, and a
message that quotes one of them goes on in a second line. A name can be told from its
message: what stands behind it is the end of no other message.
-/

namespace Symbolizer

/-- What a text ends in, as far as its last five characters tell. -/
def ending (text : String) : List Char := text.toList.rtake 5

theorem ending_append (front : String) {text : List Char} (h : 5 ≤ text.length) :
    ending (front ++ String.ofList text) = text.rtake 5 := by
  have hskip : (front.toList ++ text).length - 5 = front.toList.length + (text.length - 5) := by
    rw [List.length_append]
    omega
  rw [ending, String.toList_append, String.toList_ofList, List.rtake, List.rtake, hskip,
    List.drop_append, List.drop_eq_nil_of_le (Nat.le_add_right ..), List.nil_append,
    Nat.add_sub_cancel_left]

/-- What may stand behind the name in a message. -/
inductive NameEnd
  | isNotFunction
  | notInNameIndex
  | notInEntries
  | notInSymbols
  deriving DecidableEq

namespace NameEnd

def all : List NameEnd := [isNotFunction, notInNameIndex, notInEntries, notInSymbols]

theorem mem_all (e : NameEnd) : e ∈ all := by cases e <;> decide

/-- The last five characters. -/
def chars : NameEnd → List Char
  | isNotFunction => "ction".toList
  | notInNameIndex => "index".toList
  | notInEntries => "tries".toList
  | notInSymbols => "table".toList

theorem chars_injective {own other : NameEnd} (h : own.chars = other.chars) : own = other :=
  (by decide : ∀ own ∈ all, ∀ other ∈ all, own.chars = other.chars → own = other)
    own own.mem_all other other.mem_all h

end NameEnd

/-- The text ends like no message that has a name in front of its end, whatever precedes it. -/
def EndsApart (text : String) : Prop := ∀ (front : String) (e : NameEnd),
  ending (front ++ text) ≠ e.chars

namespace EndsApart

theorem ofList {text : List Char} (hlength : 5 ≤ text.length)
    (h : ∀ e ∈ NameEnd.all, text.rtake 5 ≠ e.chars) : EndsApart (String.ofList text) := by
  intro front e
  rw [ending_append front hlength]
  exact h e e.mem_all

theorem append {text : String} (h : EndsApart text) (front : String) :
    EndsApart (front ++ text) := by
  intro before
  rw [← String.append_assoc]
  exact h _

end EndsApart

/-- A text in two lines of printable characters, of which the second one starts behind a
margin. -/
def Breaks (text : String) : Prop :=
  ∃ first second, text.toList = first ++ '\n' :: second ∧ List.replicate 17 ' ' <+: second ∧
    ∀ c ∈ first ++ second, Printable c

namespace Breaks

theorem ofList {first second : List Char} (hend : first = first.dropLast ++ ['\n'])
    (hmargin : List.replicate 17 ' ' <+: second)
    (hprintable : ((first.dropLast ++ second).all fun c => Printable c) = true) :
    Breaks (String.ofList first ++ String.ofList second) := by
  refine ⟨first.dropLast, second, ?_, hmargin, by simpa [or_imp, forall_and] using hprintable⟩
  rw [String.toList_append, String.toList_ofList, String.toList_ofList]
  exact (congrArg (· ++ second) hend).trans (List.append_assoc _ _ _)

theorem append {text front : String} (h : Breaks text) (hfront : PrintableText front) :
    Breaks (front ++ text) := by
  obtain ⟨first, second, htext, hmargin, hprintable⟩ := h
  refine ⟨front.toList ++ first, second, ?_, hmargin, ?_⟩
  · rw [String.toList_append, htext, List.append_assoc]
  · rw [List.append_assoc]
    exact List.forall_mem_append.mpr ⟨hfront, hprintable⟩

end Breaks

namespace Dwarf

namespace DecodeError

/-- The faults whose texts have a line end of their own. -/
def brokenTexts : List DecodeError := [.zeroTag, .zeroForm, .badChildrenFlag]

theorem printableText_message {cause : DecodeError} (h : cause ∉ brokenTexts) :
    PrintableText cause.message := by
  cases cause with
  | zeroTag | zeroForm | badChildrenFlag => exact absurd (by decide) h
  | _ => exact .ofList rfl

theorem breaks_message {cause : DecodeError} (h : cause ∈ brokenTexts) :
    Breaks cause.message := by
  simp only [brokenTexts, List.mem_cons, List.not_mem_nil, or_false] at h
  rcases h with rfl | rfl | rfl
  · exact .ofList rfl (by decide) rfl
  · exact .ofList rfl (by decide) rfl
  · exact .ofList rfl (by decide) rfl

theorem endsApart_message (cause : DecodeError) : EndsApart cause.message := by
  cases cause with
  | zeroTag | zeroForm | badChildrenFlag => exact .append (.ofList (by decide) (by decide)) _
  | _ => exact .ofList (by decide) (by decide)

end DecodeError

end Dwarf

namespace Message

/-- The name that a message is about. -/
def name? : Message → Option Bytes
  | notFunction name | notInNameIndex name | notInEntries name | notInSymbols name => some name
  | notIndexed _ | unnamedSubprogram _ | unreadableRanges _ _ | stepFailed _ _ _
  | nameTruncated _ => none

/-- The fault of the data that a message quotes. -/
def cause? : Message → Option Dwarf.DecodeError
  | unreadableRanges _ cause | stepFailed _ _ (.format cause) => some cause
  | _ => none

/-- The lines of a message that stands alone. -/
def lines (message : Message) : List (List Char) := message.text.toList.splitOn '\n'

def mark : List Char := "kdebug: ".toList

/-- The message is one line of printable characters behind the mark. -/
structure IsLine (message : Message) : Prop where
  lines_eq : message.lines = [message.text.toList]
  marked : mark <+: message.text.toList
  printable : PrintableText message.text

/-- The message goes on in a second line, behind a margin. -/
def IsBroken (message : Message) : Prop :=
  ∃ first second, message.lines = [first, second] ∧ mark <+: first ∧
    List.replicate 17 ' ' <+: second ∧ ∀ c ∈ first ++ second, Printable c

theorem toList_text (message : Message) : message.text.toList = mark ++ message.body.toList :=
  String.toList_append

theorem printable_of_mem_mark : ∀ c ∈ mark, Printable c := by
  have htext : PrintableText "kdebug: " := .ofList rfl
  exact htext

theorem newline_not_mem {text : List Char} (h : ∀ c ∈ text, Printable c) : '\n' ∉ text :=
  fun hmem => (h _ hmem).ne_newline rfl

theorem isLine_of_printable {message : Message} (h : PrintableText message.body) :
    message.IsLine := by
  have hall : PrintableText message.text := by
    rw [PrintableText, toList_text]
    exact List.forall_mem_append.mpr ⟨printable_of_mem_mark, h⟩
  refine ⟨List.splitOn_eq_singleton (newline_not_mem hall), ?_, hall⟩
  rw [toList_text]
  exact List.prefix_append _ _

theorem isBroken_of_breaks {message : Message} (h : Breaks message.body) : message.IsBroken := by
  obtain ⟨first, second, hbody, hmargin, hprintable⟩ := h
  have hall : ∀ c ∈ (mark ++ first) ++ second, Printable c := by
    rw [List.append_assoc]
    exact List.forall_mem_append.mpr ⟨printable_of_mem_mark, hprintable⟩
  obtain ⟨hfirst, hsecond⟩ := List.forall_mem_append.mp hall
  refine ⟨mark ++ first, second, ?_, List.prefix_append _ _, hmargin, hall⟩
  rw [lines, toList_text, hbody, ← List.append_assoc,
    List.splitOn_append_cons_self_of_not_mem (newline_not_mem hfirst),
    List.splitOn_eq_singleton (newline_not_mem hsecond)]

theorem IsBroken.not_isLine {message : Message} (h : message.IsBroken) : ¬ message.IsLine := by
  intro hline
  obtain ⟨first, second, hbroken, _⟩ := h
  rw [hline.lines_eq] at hbroken
  cases hbroken

theorem printableText_stepFailed (address : Address) (step : Step) :
    PrintableText (Hex.ofAddress address ++ ": " ++ step.text ++ " lookup failed: ") := by
  have haddress : PrintableText (Hex.ofAddress address ++ ": ") :=
    (Hex.printableText_ofNat _).append (.ofList rfl)
  have hstep : PrintableText step.text := by cases step <;> exact .ofList rfl
  exact (haddress.append hstep).append (.ofList rfl)

theorem printableText_error {error : LookupError}
    (h : ∀ cause, error = .format cause → cause ∉ Dwarf.DecodeError.brokenTexts) :
    PrintableText error.message := by
  cases error with
  | format cause =>
      exact .append (.ofList rfl) (Dwarf.DecodeError.printableText_message (h cause rfl))
  | _ => exact .ofList rfl

/-- A message is a line unless it quotes a text that has a line end of its own. -/
theorem isLine_of_cause? {message : Message}
    (h : ∀ cause ∈ message.cause?, cause ∉ Dwarf.DecodeError.brokenTexts) : message.IsLine := by
  apply isLine_of_printable
  cases message with
  | notIndexed address | unnamedSubprogram address | nameTruncated address =>
      exact (Hex.printableText_ofNat _).append (.ofList rfl)
  | notInNameIndex name | notInEntries name | notInSymbols name =>
      exact (Escape.printableText_text name).append (.ofList rfl)
  | notFunction name =>
      exact .append (.append (.ofList rfl) (Escape.printableText_text name)) (.ofList rfl)
  | unreadableRanges entry cause =>
      exact .append (.append (.append (.ofList rfl) (Hex.printableText_ofNat _)) (.ofList rfl))
        (Dwarf.DecodeError.printableText_message (h cause rfl))
  | stepFailed address step error =>
      refine (printableText_stepFailed address step).append (printableText_error ?_)
      rintro cause rfl
      exact h cause rfl

theorem isBroken_stepFailed {cause : Dwarf.DecodeError}
    (h : cause ∈ Dwarf.DecodeError.brokenTexts) (address : Address) (step : Step) :
    (stepFailed address step (.format cause)).IsBroken :=
  isBroken_of_breaks <| .append (.append (Dwarf.DecodeError.breaks_message h) (.ofList rfl))
    (printableText_stepFailed address step)

/-- What stands behind the name of a message that is about one. -/
def nameEnd? : Message → Option NameEnd
  | notFunction _ => some .isNotFunction
  | notInNameIndex _ => some .notInNameIndex
  | notInEntries _ => some .notInEntries
  | notInSymbols _ => some .notInSymbols
  | notIndexed _ | unnamedSubprogram _ | unreadableRanges _ _ | stepFailed _ _ _
  | nameTruncated _ => none

theorem endsApart_error (error : LookupError) : EndsApart error.message := by
  cases error with
  | format cause => exact .append (Dwarf.DecodeError.endsApart_message cause) _
  | _ => exact .ofList (by decide) (by decide)

theorem ending_body_eq_iff {message : Message} {e : NameEnd} :
    ending message.body = e.chars ↔ message.nameEnd? = some e := by
  have hown {own : NameEnd} {body : String} (h : ending body = own.chars) :
      ending body = e.chars ↔ some own = some e := by
    rw [h, Option.some.injEq]
    exact ⟨NameEnd.chars_injective, congrArg _⟩
  have hnone {front text : String} (h : EndsApart text) :
      ending (front ++ text) = e.chars ↔ none = some e :=
    iff_of_false (h front e) nofun
  cases message with
  | notFunction name | notInNameIndex name | notInEntries name | notInSymbols name =>
      exact hown ((ending_append _ (by decide)).trans (by decide))
  | notIndexed address | unnamedSubprogram address | nameTruncated address =>
      exact hnone (.ofList (by decide) (by decide))
  | unreadableRanges entry cause => exact hnone (Dwarf.DecodeError.endsApart_message cause)
  | stepFailed address step error => exact hnone (endsApart_error error)

theorem nameEnd?_eq_of_body {message other : Message} (h : message.body = other.body) :
    message.nameEnd? = other.nameEnd? :=
  Option.ext fun e => by
    rw [← ending_body_eq_iff, ← ending_body_eq_iff, h]

theorem name?_eq_none_of_nameEnd? {message : Message} (h : message.nameEnd? = none) :
    message.name? = none := by
  cases message <;> first | rfl | cases h

/-- A name can be told from its message. -/
theorem name?_eq_of_text {message other : Message} (h : message.text = other.text) :
    message.name? = other.name? := by
  have hbody : message.body = other.body := (String.append_right_inj _).mp h
  have hending := nameEnd?_eq_of_body hbody
  cases message with
  | notFunction name =>
      cases other with
      | notFunction name' =>
          have hfront := (String.append_left_inj _).mp hbody
          exact congrArg some (Escape.text_injective ((String.append_right_inj _).mp hfront))
      | _ => cases hending
  | notInNameIndex name =>
      cases other with
      | notInNameIndex name' =>
          exact congrArg some (Escape.text_injective ((String.append_left_inj _).mp hbody))
      | _ => cases hending
  | notInEntries name =>
      cases other with
      | notInEntries name' =>
          exact congrArg some (Escape.text_injective ((String.append_left_inj _).mp hbody))
      | _ => cases hending
  | notInSymbols name =>
      cases other with
      | notInSymbols name' =>
          exact congrArg some (Escape.text_injective ((String.append_left_inj _).mp hbody))
      | _ => cases hending
  | _ => exact (name?_eq_none_of_nameEnd? hending.symm).symm

/-- A report has the lines of its messages, one behind the other, and ends in a line end. -/
theorem splitOn_report (log : List Message) :
    (report log).toList.splitOn '\n' = log.flatMap lines ++ [[]] := by
  induction log with
  | nil => rfl
  | cons message log ih =>
      have hreport : (report (message :: log)).toList =
          message.text.toList ++ '\n' :: (report log).toList := by
        rw [report, List.map_cons, String.join_cons, ← report, String.toList_append,
          String.toList_append, List.append_assoc]
        rfl
      rw [hreport, List.splitOn_append_cons_self, ih, List.flatMap_cons, List.append_assoc, lines]

end Message

end Symbolizer
