import Symbolizer.Proofs.FunctionEntries
import Symbolizer.Proofs.MessageTexts
import Symbolizer.Proofs.Reporting

/-! # Messages keep to their lines

A report is read line by line. Whatever an image holds and whatever is asked for, each
message of a lookup and of resolving a name is one line. So is each message of resolving
an address, unless it quotes one of the texts that break. Lookups quote no such text:
the code of a subprogram is decoded only once the attributes of its entry have been read.
-/

namespace Symbolizer

namespace Message

/-- The message is a line, and if it is about a name then about the one asked for. -/
structure IsLineAbout (asked : Option Bytes) (message : Message) : Prop extends
    message.IsLine where
  name : message.name? = none ∨ message.name? = asked

end Message

namespace Dwarf

/-- The faults of a range whose attributes have all been read. -/
def rangeFaults : List DecodeError := [.endOfInput, .addressForm]

theorem Value.address?_eq_error {value : Value} {e : DecodeError} (h : value.address? = .error e) :
    e ∈ rangeFaults := by
  cases value <;> cases h
  exact List.mem_cons_self

theorem Attribute.checkBound_eq_error {a : Attribute} {e : DecodeError}
    (h : a.checkBound = .error e) : e ∈ rangeFaults := by
  have hrequire {value : Value} (h : requireAddress value = .error e) : e ∈ rangeFaults := by
    rcases Except.bind_eq_error_iff.mp h with haddress | ⟨address?, _, hmissing⟩
    · exact Value.address?_eq_error haddress
    · split at hmissing
      · cases hmissing
        decide
      · cases hmissing
  unfold checkBound at h
  split at h
  · cases h
  · exact hrequire h
  · exact hrequire h
  · cases h

/-- Once the attributes of an entry have been read, its range can fail only over the bounds and
over a list of ranges that is not at hand. -/
theorem Entry.range?_eq_error {entry : Entry} {e : DecodeError}
    (hattributes : entry.attributes.fault = none) (h : entry.range? = .error e) :
    e ∈ rangeFaults := by
  rcases Except.bind_eq_error_iff.mp h with hcheck | ⟨_, _, h⟩
  · obtain ⟨a, _, ha⟩ := Except.exists_of_forM_eq_error hcheck
    exact Attribute.checkBound_eq_error ha
  · split at h
    next list hlist =>
      rcases Except.bind_eq_error_iff.mp h with hempty | ⟨_, _, hdone⟩
      · unfold Value.emptyRangeList at hempty
        split at hempty
        · cases hempty
        · cases hempty
          decide
      · cases hdone
    next =>
      rcases Except.bind_eq_error_iff.mp h with hall | ⟨_, _, hdone⟩
      · rw [Decoded.toExcept, hattributes] at hall
        cases hall
      · cases hdone

open Message

variable {asked : Option Bytes}

/-- Of the code of a subprogram whose entry has been read no text is quoted that breaks. -/
theorem Subprogram.logs_range? {subprogram : Subprogram}
    (h : ofEntry subprogram.entry = .ok (some subprogram)) (accepted : AddressRange → Bool) :
    (subprogram.range? accepted).Logs (IsLineAbout asked) := by
  unfold range?
  split
  · exact .ofExcept _
  · next e he =>
      have hfault := Entry.range?_eq_error (eq_of_ofEntry h).1 he
      have hcause : e ∉ DecodeError.brokenTexts :=
        (by decide : ∀ e ∈ rangeFaults, e ∉ DecodeError.brokenTexts) e hfault
      refine .bind (.tell ⟨isLine_of_cause? ?_, .inl rfl⟩) fun _ _ => .ofExcept _
      rintro _ ⟨⟩
      exact hcause

theorem Subprogram.logs_startOrFirst? {subprogram : Subprogram}
    (h : ofEntry subprogram.entry = .ok (some subprogram)) :
    subprogram.startOrFirst?.Logs (IsLineAbout asked) := by
  refine .bind (.ofExcept _) fun start? _ => ?_
  cases start? with
  | some address => exact .ofExcept _
  | none => exact .bind (logs_range? h _) fun _ _ => .ofExcept _

end Dwarf

/-- What the lookups of an engine report are lines, about the name asked for if about any. -/
structure Engine.ReportsLines (engine : Engine) : Prop where
  unitForAddress : ∀ address, (engine.unitForAddress address).Logs (Message.IsLineAbout none)
  fileForUnit : ∀ unit, (engine.fileForUnit unit).Logs (Message.IsLineAbout none)
  lineForAddress : ∀ address program,
    (engine.lineForAddress address program).Logs (Message.IsLineAbout none)
  functionForAddress : ∀ address unit,
    (engine.functionForAddress address unit).Logs (Message.IsLineAbout none)
  addressByIndex : ∀ name, (engine.addressByIndex name).Logs (Message.IsLineAbout (some name))
  addressByScan : ∀ name, (engine.addressByScan name).Logs (Message.IsLineAbout (some name))

namespace Dwarf.Sections

open Message

variable (sections : Sections)

theorem logs_unitForAddress (address : Address) :
    (sections.unitForAddress address).Logs (IsLineAbout none) := by
  refine .bind (.search fun _ _ => .ofExcept _) fun indexed _ => ?_
  cases indexed with
  | some unit => exact .ofExcept _
  | none =>
      refine .bind (.tell ⟨isLine_of_cause? nofun, .inl rfl⟩) fun _ _ => .orNotFound <| .search ?_
      exact fun unit _ => .bind (.ofExcept _) fun _ _ => .ofExcept _

theorem logs_fileForUnit (offset : Nat) :
    (sections.fileForUnit offset).Logs (IsLineAbout none) := by
  refine .bind (.ofExcept _) fun unit _ => ?_
  split <;> exact .ofExcept _

theorem logs_lineForAddress (address : Address) (offset : Nat) :
    (sections.lineForAddress address offset).Logs (IsLineAbout none) := by
  refine .bind (.ofExcept _) fun program _ => ?_
  dsimp only
  split <;> exact .ofExcept _

theorem logs_functionForAddress (address : Address) (offset : Nat) :
    (sections.functionForAddress address offset).Logs (IsLineAbout none) := by
  refine .bind (.ofExcept _) fun unit _ => .orNotFound <| .search fun subprogram hmem => ?_
  refine .bind (Subprogram.logs_range? (Subprogram.ofEntry_of_mem_subprograms hmem) _) ?_
  intro range? _
  cases range? with
  | none => exact .ofExcept _
  | some range =>
      refine .bind (.ofExcept _) fun name? _ => ?_
      cases name? with
      | none =>
          exact .bind (.tell ⟨isLine_of_cause? nofun, .inl rfl⟩) fun _ _ => .ofExcept _
      | some name => exact .bind (.ofExcept _) fun _ _ => .ofExcept _

theorem logs_addressByIndex (name : Bytes) :
    (sections.addressByIndex name).Logs (IsLineAbout (some name)) := by
  refine .orNotFound <| .search fun indexed _ => ?_
  split
  · exact .ofExcept _
  refine .bind (.ofExcept _) fun unit _ => .bind (.ofExcept _) fun entry _ => ?_
  refine .bind (.ofExcept _) fun found hfound => ?_
  cases found with
  | none => exact .bind (.tell ⟨isLine_of_cause? nofun, .inr rfl⟩) fun _ _ => .ofExcept _
  | some subprogram =>
      have hentry := Lookup.answer_decode_eq_ok_iff.mp hfound
      exact Subprogram.logs_startOrFirst? (Subprogram.ofEntry_entry hentry)

theorem logs_addressByScan (name : Bytes) :
    (sections.addressByScan name).Logs (IsLineAbout (some name)) := by
  refine .orNotFound <| .search fun unit _ => .search fun subprogram hmem => ?_
  refine .bind (.ofExcept _) fun own _ => ?_
  split
  · exact .ofExcept _
  · exact Subprogram.logs_startOrFirst? (Subprogram.ofEntry_of_mem_subprograms hmem)

theorem engine_reportsLines : sections.engine.ReportsLines where
  unitForAddress := sections.logs_unitForAddress
  fileForUnit := sections.logs_fileForUnit
  lineForAddress := sections.logs_lineForAddress
  functionForAddress := sections.logs_functionForAddress
  addressByIndex := sections.logs_addressByIndex
  addressByScan := sections.logs_addressByScan

end Dwarf.Sections

namespace Message

/-- What resolving an address may report: a line without a name, or that one of its steps failed
over a fault whose text has a line end of its own. -/
inductive OfAddress (address : Address) (message : Message) : Prop
  | line (h : message.IsLineAbout none)
  | broken (step : Step) (cause : Dwarf.DecodeError) (hbroken : message.IsBroken)
      (hcause : cause ∈ Dwarf.DecodeError.brokenTexts)
      (hmessage : message = .stepFailed address step (.format cause))

theorem OfAddress.stepFailed (address : Address) (step : Step) (error : LookupError) :
    OfAddress address (.stepFailed address step error) := by
  by_cases hcause : ∀ cause ∈ (Message.stepFailed address step error).cause?,
      cause ∉ Dwarf.DecodeError.brokenTexts
  · exact .line ⟨isLine_of_cause? hcause, .inl rfl⟩
  · push Not at hcause
    obtain ⟨cause, hquoted, hbroken⟩ := hcause
    cases error with
    | format own =>
        obtain rfl := Option.some.inj hquoted
        exact .broken step own (isBroken_stepFailed hbroken address step) hbroken rfl
    | _ => cases hquoted

end Message

namespace Engine

open Traced

variable {engine : Engine}

theorem logs_step {α : Type} {lookup : Lookup α} (h : lookup.Logs (Message.IsLineAbout none))
    (address : Address) (which : Step) (location : Location) (call : Call) :
    (step address which location call lookup).Logs (Message.OfAddress address) := by
  refine .bind (.ask call fun message hmem => .line (h message hmem)) fun answer => ?_
  cases answer with
  | ok a => exact .pure a
  | error e => exact .bind (.tell (.stepFailed address which e)) fun _ => .throw _

theorem logs_resolveAddress (h : engine.ReportsLines) (config : Config) (address : Address)
    (out : Location) :
    (engine.resolveAddress config address out).Logs (Message.OfAddress address) := by
  unfold resolveAddress
  dsimp only
  split
  · exact .pure _
  split
  · exact .throw _
  refine .bind (logs_step (h.unitForAddress _) _ _ _ _) fun unit => ?_
  refine .bind (logs_step (h.fileForUnit _) _ _ _ _) fun file => ?_
  refine .bind (logs_step (h.lineForAddress _ _) _ _ _ _) fun line => ?_
  refine .bind (logs_step (h.functionForAddress _ _) _ _ _ _) fun function => ?_
  split
  · exact .bind (.tell (.line ⟨Message.isLine_of_cause? nofun, .inl rfl⟩)) fun _ => .pure _
  · exact .pure _

theorem logs_resolveName (h : engine.ReportsLines) (symbols : SymbolTable) (name : Bytes) :
    (engine.resolveName symbols name).Logs (Message.IsLineAbout (some name)) := by
  unfold resolveName
  have htold {message : Message} (hcause : message.cause? = none)
      (hname : message.name? = some name) : Traced.Logs (Message.IsLineAbout (some name))
        (Traced.tell message : Traced Fatal Unit) :=
    .tell ⟨Message.isLine_of_cause? (by rw [hcause]; exact nofun), .inr hname⟩
  refine .bind (.ask _ (h.addressByIndex name)) fun answer => ?_
  cases answer with
  | ok address => exact .pure _
  | error error =>
      cases error with
      | notFound =>
          refine .bind (htold rfl rfl) fun _ => .bind (.ask _ (h.addressByScan name)) ?_
          intro answer
          cases answer with
          | ok address => exact .pure _
          | error error =>
              cases error with
              | notFound =>
                  refine .bind (htold rfl rfl) fun _ => ?_
                  cases symbols.find? name with
                  | some address => exact .pure _
                  | none => exact .bind (htold rfl rfl) fun _ => .pure _
              | _ => exact .throw_bind _ _
      | _ => exact .throw_bind _ _

end Engine

/-- Whatever the image holds and whatever address or name is asked for, each message of a lookup
and of resolving a name is one line, about no other name than the one asked for. So is each message
of resolving an address, unless it says that a step failed over a fault whose text breaks. A report
has the lines of its messages, and messages about different names read differently. -/
theorem messages_keep_to_lines (image : Image) :
    image.sections.engine.ReportsLines ∧
    (∀ name, ∀ message ∈ (image.resolveName name).start.2.log,
      message.IsLineAbout (some name)) ∧
    (∀ config address out, ∀ message ∈ (image.resolveAddress config address out).start.2.log,
      message.OfAddress address) ∧
    (∀ log, (Message.report log).toList.splitOn '\n' = log.flatMap Message.lines ++ [[]]) ∧
    ∀ message other : Message, message.text = other.text → message.name? = other.name? := by
  have hengine := image.sections.engine_reportsLines
  refine ⟨hengine, fun name => ?_, fun config address out => ?_, Message.splitOn_report,
    fun message other => Message.name?_eq_of_text⟩
  · exact (Engine.logs_resolveName hengine image.symbolTable name).start
  · exact (Engine.logs_resolveAddress hengine config address out).start

/-- A line end that is asked for as a name is not in an empty image, and the messages about it are
lines all the same. -/
theorem lineEnd_messages :
    (Image.empty.resolveName [0x0a]).start.2.log =
      [.notInNameIndex [0x0a], .notInEntries [0x0a], .notInSymbols [0x0a]] ∧
    (∀ message ∈ (Image.empty.resolveName [0x0a]).start.2.log, message.IsLine) ∧
    (Message.notInNameIndex [0x0a]).text ≠ (Message.notInNameIndex [0x5c, 0x6e]).text := by
  obtain ⟨_, hname, _, _, htext⟩ := messages_keep_to_lines Image.empty
  refine ⟨by decide +kernel, fun message hmem => (hname _ message hmem).toIsLine, fun h => ?_⟩
  exact absurd (htext _ _ h) (by decide)

/-- An image of one unit, whose abbreviation declares that its tag is zero. -/
def zeroTagged : Image :=
  { Image.empty with
    sections :=
      { Dwarf.Sections.empty with
        abbreviations := [1, 0]
        info := Bytes.sized [4, 0, 0, 0, 0, 0, 8, 1] } }

/-- The unit for an address cannot be told, and the message that says so is no line. -/
theorem zeroTagged_breaks_line :
    ∃ message ∈ (zeroTagged.resolveAddress .default 0x800000000010 (.fresh 0)).start.2.log,
      ¬ message.IsLine ∧ message.lines.length = 2 := by
  have hlog : (zeroTagged.resolveAddress .default 0x800000000010 (.fresh 0)).start.2.log =
      [.notIndexed 0x800000000010, .stepFailed 0x800000000010 .unit (.format .zeroTag)] := by
    decide +kernel
  have hbroken : (Message.stepFailed 0x800000000010 .unit (.format .zeroTag)).IsBroken :=
    Message.isBroken_stepFailed (by decide) _ _
  refine ⟨_, hlog ▸ List.mem_cons_of_mem _ List.mem_cons_self, hbroken.not_isLine, ?_⟩
  obtain ⟨first, second, hlines, _⟩ := hbroken
  rw [hlines]
  rfl

end Symbolizer
