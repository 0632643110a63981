import Symbolizer.Proofs.Asking

/-! # Locations that are filled in part

Each step of resolving an address sets fields of its own. A step without an answer stops
the resolution there: the location keeps what the steps before it have set, which is what
any engine with the same answers so far would have set on its way to the end, and reads
as fresh in all other fields.
-/

namespace Symbolizer

/-- How many steps there are before a step. -/
def Step.position : Step → Nat
  | unit => 0
  | file => 1
  | line => 2
  | function => 3

/-- Whether locations are the same in the fields that a step sets. The unit sets none. -/
def Location.SameAt (location other : Location) : Step → Prop
  | .unit => True
  | .file => location.file = other.file
  | .line => location.line = other.line
  | .function => location.function = other.function ∧ location.entry = other.entry

def Lookup.error? {α : Type} (lookup : Lookup α) : Option LookupError :=
  match lookup.answer with
  | .ok _ => none
  | .error e => some e

theorem Lookup.error?_of_ok {α : Type} {lookup : Lookup α} {a : α} (h : lookup.answer = .ok a) :
    lookup.error? = none := by
  rw [error?, h]

theorem Lookup.error?_of_error {α : Type} {lookup : Lookup α} {e : LookupError}
    (h : lookup.answer = .error e) : lookup.error? = some e := by
  rw [error?, h]

namespace Engine

/-- The error of a question that the engine does not answer. -/
def error? (engine : Engine) : Call → Option LookupError
  | .unit address => (engine.unitForAddress address).error?
  | .file unit => (engine.fileForUnit unit).error?
  | .line address program => (engine.lineForAddress address program).error?
  | .function address unit => (engine.functionForAddress address unit).error?
  | .index name => (engine.addressByIndex name).error?
  | .scan name => (engine.addressByScan name).error?

/-- Whether engines give the same answer to a question. -/
def AgreesOn (engine other : Engine) : Call → Prop
  | .unit address => (engine.unitForAddress address).answer = (other.unitForAddress address).answer
  | .file unit => (engine.fileForUnit unit).answer = (other.fileForUnit unit).answer
  | .line address program =>
    (engine.lineForAddress address program).answer = (other.lineForAddress address program).answer
  | .function address unit =>
    (engine.functionForAddress address unit).answer = (other.functionForAddress address unit).answer
  | .index name => (engine.addressByIndex name).answer = (other.addressByIndex name).answer
  | .scan name => (engine.addressByScan name).answer = (other.addressByScan name).answer

/-- The first questions for an address, each fed by the answers to those before it. -/
inductive Chained (engine : Engine) (address : Address) : List Call → Prop
  | unit : Chained engine address [.unit address]
  | file {unit : Nat} (hunit : (engine.unitForAddress address).answer = .ok unit) :
      Chained engine address [.unit address, .file unit]
  | line {unit : Nat} {file : SourceFile}
      (hunit : (engine.unitForAddress address).answer = .ok unit)
      (hfile : (engine.fileForUnit unit).answer = .ok file) :
      Chained engine address
        [.unit address, .file unit, .line (callSite address) file.lineProgram]
  | function {unit : Nat} {file : SourceFile} {line : UInt32}
      (hunit : (engine.unitForAddress address).answer = .ok unit)
      (hfile : (engine.fileForUnit unit).answer = .ok file)
      (hline : (engine.lineForAddress (callSite address) file.lineProgram).answer = .ok line) :
      Chained engine address
        [.unit address, .file unit, .line (callSite address) file.lineProgram,
          .function (callSite address) unit]

/-- How a resolution ends whose questions are all answered. -/
structure Completes (engine : Engine) (address : Address) (calls : List Call)
    (location : Location) : Prop where
  asked : calls.length = 4
  answered : ∀ call ∈ calls, engine.error? call = none
  filled : ∃ unit file line function, (engine.unitForAddress address).answer = .ok unit ∧
    engine.Attributes unit (callSite address) file line function ∧
    location = ⟨address, .ofBytes file.name, line, .ofBytes function.name, function.entry, 0⟩

/-- Another engine has the same answers to some questions and goes on to fill a location. -/
structure CompletedBy (engine : Engine) (address : Address) (calls : List Call) (other : Engine)
    (location : Location) : Prop where
  agrees : ∀ call ∈ calls, engine.AgreesOn other call
  completes : ∃ config out, (other.resolveAddress config address out).start.1 = .ok location

/-- How a resolution ends that a step stops. -/
structure StopsAt (engine : Engine) (address : Address) (failing : Step) (calls : List Call)
    (stopped : Stopped) : Prop where
  /-- The question of the step is the last one, and its error is the outcome. -/
  error : ∃ before call e, calls = before ++ [call] ∧ before.length = failing.position ∧
    engine.error? call = some e ∧ stopped.failure = .lookup e
  /-- What was set before is what any engine sets that has the same answers so far and goes on to
  the end. -/
  filled : ∀ (step : Step) (other : Engine) (location : Location),
    step.position < failing.position →
    engine.CompletedBy address calls.dropLast other location → stopped.location.SameAt location step
  completable : ∃ other location, engine.CompletedBy address calls.dropLast other location
  /-- All other fields are left as they were. -/
  blank : ∀ step : Step, failing.position ≤ step.position →
    stopped.location.SameAt (.fresh address) step
  unset : stopped.location.address = address ∧ stopped.location.argumentCount = 0

end Engine

theorem Location.SameAt.refl (location : Location) (step : Step) :
    location.SameAt location step := by
  cases step with
  | unit => trivial
  | file | line => rfl
  | function => exact ⟨rfl, rfl⟩

namespace Lookup

variable {α : Type}

/-- Answers with a default instead of an error. -/
def withDefault (lookup : Lookup α) (default : α) : Lookup α :=
  ⟨lookup.log, .ok (lookup.answer.toOption.getD default)⟩

theorem answer_withDefault {lookup : Lookup α} (h : lookup.error? = none) (default : α) :
    (lookup.withDefault default).answer = lookup.answer := by
  unfold error? at h
  split at h
  · rename_i a ha
    rw [withDefault, ha]
    rfl
  · cases h

end Lookup

namespace Engine

variable {engine other : Engine} {address : Address} {unit : Nat} {file : SourceFile}
  {line : UInt32} {calls : List Call} {location : Location}

/-- An engine with the same answers that has one to each question for an address. -/
def completed (engine : Engine) : Engine where
  unitForAddress address := (engine.unitForAddress address).withDefault 0
  fileForUnit unit := (engine.fileForUnit unit).withDefault ⟨[], 0⟩
  lineForAddress address program := (engine.lineForAddress address program).withDefault 0
  functionForAddress address unit := (engine.functionForAddress address unit).withDefault ⟨[], 0⟩
  addressByIndex := engine.addressByIndex
  addressByScan := engine.addressByScan

theorem agreesOn_completed {call : Call} (h : engine.error? call = none) :
    engine.AgreesOn engine.completed call := by
  cases call with
  | unit | file | line | function => exact (Lookup.answer_withDefault h _).symm
  | index | scan => rfl

/-- All questions but the last one have been answered. -/
theorem Chained.answered (h : engine.Chained address calls) :
    ∀ call ∈ calls.dropLast, engine.error? call = none := by
  cases h with
  | unit => exact List.forall_mem_nil _
  | file hunit => exact List.forall_mem_singleton.mpr (Lookup.error?_of_ok hunit)
  | line hunit hfile =>
      exact List.forall_mem_cons.mpr ⟨Lookup.error?_of_ok hunit,
        List.forall_mem_singleton.mpr (Lookup.error?_of_ok hfile)⟩
  | function hunit hfile hline =>
      exact List.forall_mem_cons.mpr ⟨Lookup.error?_of_ok hunit, List.forall_mem_cons.mpr
        ⟨Lookup.error?_of_ok hfile, List.forall_mem_singleton.mpr (Lookup.error?_of_ok hline)⟩⟩

theorem Chained.completable (h : engine.Chained address calls) (hzero : address ≠ 0) :
    ∃ other location, engine.CompletedBy address calls.dropLast other location := by
  obtain ⟨location, hlocated⟩ : ∃ location, engine.completed.located address = .ok location :=
    ⟨_, rfl⟩
  have hkernel : (Config.mk 0).kernelStart ≤ address := UInt64.zero_le
  have hresult := engine.completed.resolveAddress_yields_located hzero hkernel (.fresh 0)
  exact ⟨engine.completed, location, fun call hcall => agreesOn_completed (h.answered call hcall),
    ⟨0⟩, .fresh 0, hresult.start.trans hlocated⟩

/-- The questions are those of the chain as far as it gets. -/
theorem questions_chained (engine : Engine) (address : Address) :
    engine.Chained address (engine.questions address) := by
  rw [questions]
  cases hunit : (engine.unitForAddress address).answer with
  | error e => exact .unit
  | ok unit =>
      dsimp only [Call.following]
      cases hfile : (engine.fileForUnit unit).answer with
      | error e => exact .file hunit
      | ok file =>
          dsimp only [Call.following]
          cases hline : (engine.lineForAddress (callSite address) file.lineProgram).answer with
          | error e => exact .line hunit hfile
          | ok line => exact .function hunit hfile hline

/-- An engine with the same answers fills in the same file and asks for the line in it. -/
theorem CompletedBy.filled_file (h : engine.CompletedBy address calls other location)
    (hzero : address ≠ 0) (hunit : (engine.unitForAddress address).answer = .ok unit)
    (hfile : (engine.fileForUnit unit).answer = .ok file)
    (hcalls : [.unit address, .file unit] ⊆ calls) : ∃ line, ∃ function : Function,
      (other.lineForAddress (callSite address) file.lineProgram).answer = .ok line ∧
      location =
        ⟨address, .ofBytes file.name, line, .ofBytes function.name, function.entry, 0⟩ := by
  obtain ⟨config, out, hresult⟩ := h.completes
  obtain ⟨unit', file', line, function, hunit', hattributes, hlocation⟩ :=
    located_eq_ok_iff.mp (located_of_resolveAddress hzero hresult)
  have hsame : (engine.unitForAddress address).answer = (other.unitForAddress address).answer :=
    h.agrees (.unit address) (hcalls (by simp))
  obtain rfl : unit = unit' := Except.ok.inj (hunit.symm.trans (hsame.trans hunit'))
  have hsame : (engine.fileForUnit unit).answer = (other.fileForUnit unit).answer :=
    h.agrees (.file unit) (hcalls (by simp))
  obtain rfl : file = file' := Except.ok.inj (hfile.symm.trans (hsame.trans hattributes.of_file))
  exact ⟨line, function, hattributes.of_line, hlocation⟩

theorem stopsAt_unit (hzero : address ≠ 0) {e : LookupError}
    (h : (engine.unitForAddress address).answer = .error e) :
    engine.StopsAt address .unit [.unit address] ⟨.fresh address, .lookup e⟩ where
  error := ⟨[], _, e, rfl, rfl, Lookup.error?_of_error h, rfl⟩
  filled _ _ _ hstep := absurd hstep (Nat.not_lt_zero _)
  completable := Chained.unit.completable hzero
  blank step _ := .refl _ step
  unset := ⟨rfl, rfl⟩

theorem stopsAt_file (hzero : address ≠ 0)
    (hunit : (engine.unitForAddress address).answer = .ok unit) {e : LookupError}
    (h : (engine.fileForUnit unit).answer = .error e) :
    engine.StopsAt address .file [.unit address, .file unit] ⟨.fresh address, .lookup e⟩ where
  error := ⟨[.unit address], _, e, rfl, rfl, Lookup.error?_of_error h, rfl⟩
  filled step _ _ hstep _ := by
    cases step with
    | unit => trivial
    | file | line | function => exact absurd hstep (by decide)
  completable := (Chained.file hunit).completable hzero
  blank step _ := .refl _ step
  unset := ⟨rfl, rfl⟩

theorem stopsAt_line (hzero : address ≠ 0)
    (hunit : (engine.unitForAddress address).answer = .ok unit)
    (hfile : (engine.fileForUnit unit).answer = .ok file) {e : LookupError}
    (h : (engine.lineForAddress (callSite address) file.lineProgram).answer = .error e) :
    engine.StopsAt address .line
      [.unit address, .file unit, .line (callSite address) file.lineProgram]
      ⟨{ Location.fresh address with file := .ofBytes file.name }, .lookup e⟩ where
  error := ⟨[.unit address, .file unit], _, e, rfl, rfl, Lookup.error?_of_error h, rfl⟩
  filled step other location hstep hcompleted := by
    obtain ⟨line, function, _, rfl⟩ :=
      hcompleted.filled_file hzero hunit hfile (List.Subset.refl _)
    cases step with
    | unit => trivial
    | file => rfl
    | line | function => exact absurd hstep (by decide)
  completable := (Chained.line hunit hfile).completable hzero
  blank step hstep := by
    cases step with
    | unit | file => exact absurd hstep (by decide)
    | line => rfl
    | function => exact ⟨rfl, rfl⟩
  unset := ⟨rfl, rfl⟩

theorem stopsAt_function (hzero : address ≠ 0)
    (hunit : (engine.unitForAddress address).answer = .ok unit)
    (hfile : (engine.fileForUnit unit).answer = .ok file)
    (hline : (engine.lineForAddress (callSite address) file.lineProgram).answer = .ok line)
    {e : LookupError} (h : (engine.functionForAddress (callSite address) unit).answer = .error e) :
    engine.StopsAt address .function
      [.unit address, .file unit, .line (callSite address) file.lineProgram,
        .function (callSite address) unit]
      ⟨{ Location.fresh address with file := .ofBytes file.name, line }, .lookup e⟩ where
  error := ⟨[.unit address, .file unit, .line (callSite address) file.lineProgram], _, e, rfl, rfl,
    Lookup.error?_of_error h, rfl⟩
  filled step other location hstep hcompleted := by
    obtain ⟨line', function, hline', rfl⟩ :=
      hcompleted.filled_file hzero hunit hfile (List.subset_append_left _ [Call.line _ _])
    have hsame : (engine.lineForAddress (callSite address) file.lineProgram).answer =
        (other.lineForAddress (callSite address) file.lineProgram).answer :=
      hcompleted.agrees (.line (callSite address) file.lineProgram) (by simp)
    obtain rfl : line = line' := Except.ok.inj (hline.symm.trans (hsame.trans hline'))
    cases step with
    | unit => trivial
    | file | line => rfl
    | function => exact absurd hstep (by decide)
  completable := (Chained.function hunit hfile hline).completable hzero
  blank step hstep := by
    cases step with
    | unit | file | line => exact absurd hstep (by decide)
    | function => exact ⟨rfl, rfl⟩
  unset := ⟨rfl, rfl⟩

theorem completes {function : Function} (hunit : (engine.unitForAddress address).answer = .ok unit)
    (hattributes : engine.Attributes unit (callSite address) file line function) :
    engine.Completes address
      [.unit address, .file unit, .line (callSite address) file.lineProgram,
        .function (callSite address) unit]
      ⟨address, .ofBytes file.name, line, .ofBytes function.name, function.entry, 0⟩ where
  asked := rfl
  answered := by
    simp only [List.forall_mem_cons]
    exact ⟨Lookup.error?_of_ok hunit, Lookup.error?_of_ok hattributes.of_file,
      Lookup.error?_of_ok hattributes.of_line, Lookup.error?_of_ok hattributes.of_function,
      List.forall_mem_nil _⟩
  filled := ⟨unit, file, line, function, hunit, hattributes, rfl⟩

/-- A resolution either fills the location or is stopped by a step. -/
theorem completes_or_stopsAt (engine : Engine) (hzero : address ≠ 0) :
    (∃ location, engine.located address = .ok location ∧
      engine.Completes address (engine.questions address) location) ∨
    ∃ failing stopped, engine.located address = .error stopped ∧
      engine.StopsAt address failing (engine.questions address) stopped := by
  rw [located, questions]
  -- Location and questions go by the same answers, so each step splits both at once.
  cases hunit : (engine.unitForAddress address).answer with
  | error e => exact Or.inr ⟨_, _, rfl, stopsAt_unit hzero hunit⟩
  | ok unit =>
      simp only [Call.following, Except.mapError_ok, Except.ok_bind]
      cases hfile : (engine.fileForUnit unit).answer with
      | error e => exact Or.inr ⟨_, _, rfl, stopsAt_file hzero hunit hfile⟩
      | ok file =>
          simp only [Except.mapError_ok, Except.ok_bind]
          cases hline : (engine.lineForAddress (callSite address) file.lineProgram).answer with
          | error e => exact Or.inr ⟨_, _, rfl, stopsAt_line hzero hunit hfile hline⟩
          | ok line =>
              simp only [Except.mapError_ok, Except.ok_bind]
              cases hfunction : (engine.functionForAddress (callSite address) unit).answer with
              | error e =>
                  exact Or.inr ⟨_, _, rfl, stopsAt_function hzero hunit hfile hline hfunction⟩
              | ok function =>
                  exact Or.inl ⟨_, rfl, completes hunit ⟨hfile, hline, hfunction⟩⟩

/-- Resolving an address fills the location step by step, whatever engine is asked and whatever
the location held. Zero is filled with nothing and an address of the user is refused, both without
a question. For any other address the questions form a chain that the first error ends. -/
theorem resolveAddress_fills_stepwise (engine : Engine) (config : Config) (address : Address) :
    ∃ outcome trace, (∀ out, (engine.resolveAddress config address out).start = (outcome, trace)) ∧
      (address = 0 → outcome = .ok (.fresh 0) ∧ trace.calls = []) ∧
      (address ≠ 0 → address < config.kernelStart →
        outcome = .error ⟨.fresh address, .fatal (.userAddress address)⟩ ∧ trace.calls = []) ∧
      (address ≠ 0 → config.kernelStart ≤ address → engine.Chained address trace.calls ∧
        ((∃ location, outcome = .ok location ∧ engine.Completes address trace.calls location) ∨
          ∃ failing stopped, outcome = .error stopped ∧
            engine.StopsAt address failing trace.calls stopped)) := by
  by_cases hzero : address = 0
  · subst hzero
    refine ⟨.ok (.fresh 0), .empty, fun out => ?_, fun _ => ⟨rfl, rfl⟩, fun h => absurd rfl h,
      fun h => absurd rfl h⟩
    rw [resolveAddress_zero]
    rfl
  by_cases huser : address < config.kernelStart
  · refine ⟨.error ⟨.fresh address, .fatal (.userAddress address)⟩, .empty, fun out => ?_,
      fun h => absurd h hzero, fun _ _ => ⟨rfl, rfl⟩, fun _ h => absurd huser (UInt64.not_lt.mpr h)⟩
    rw [resolveAddress_refused engine hzero huser]
    rfl
  · have hkernel := UInt64.not_lt.mp huser
    refine ⟨engine.located address, (engine.resolveAddress config address (.fresh address)).start.2,
      fun out => ?_, fun h => absurd h hzero, fun _ h => absurd h huser, fun _ _ => ?_⟩
    · rw [resolveAddress_eq_of_fresh]
      exact Prod.ext (engine.resolveAddress_yields_located hzero hkernel _).start rfl
    · rw [(engine.resolveAddress_asks_questions hzero hkernel _).start]
      exact ⟨questions_chained engine address, completes_or_stopsAt engine hzero⟩

/-- An engine that knows units and files but no lines. -/
def lineless : Engine where
  unitForAddress _ := pure 0x40
  fileForUnit _ := pure ⟨Bytes.ofText "kern/trap.c", 0x80⟩
  lineForAddress _ _ := Lookup.fail .notFound
  functionForAddress _ _ := pure ⟨Bytes.ofText "trap", 0x800000001000⟩
  addressByIndex _ := Lookup.fail .notFound
  addressByScan _ := Lookup.fail .notFound

/-- The file is filled in, and nothing is asked behind the line. -/
theorem lineless_stops : ∃ trace stopped,
    (lineless.resolveAddress .default 0x800000001010 (.fresh 0)).start = (.error stopped, trace) ∧
    trace.calls = [.unit 0x800000001010, .file 0x40, .line 0x80000000100b 0x80] ∧
    lineless.StopsAt 0x800000001010 .line trace.calls stopped := by
  obtain ⟨outcome, trace, hstart, _, _, hkernel⟩ :=
    resolveAddress_fills_stepwise lineless .default 0x800000001010
  obtain ⟨_, hends⟩ := hkernel (by decide) (by decide)
  obtain ⟨hresult, hcalls⟩ : outcome = .error ⟨_, .lookup .notFound⟩ ∧ trace.calls = _ :=
    have hrun := hstart (.fresh 0)
    ⟨(congrArg Prod.fst hrun).symm, (congrArg (·.2.calls) hrun).symm⟩
  rcases hends with ⟨location, hok, _⟩ | ⟨failing, stopped, herror, hstops⟩
  · cases hresult.symm.trans hok
  · obtain rfl : failing = .line := by
      obtain ⟨before, call, _, hbefore, hposition, _⟩ := hstops.error
      rw [hcalls] at hbefore
      have hlength := congrArg List.length hbefore
      rw [List.length_append, hposition] at hlength
      cases failing with
      | line => rfl
      | unit | file | function => cases hlength
    exact ⟨trace, stopped, (hstart _).trans (by rw [herror]), hcalls, hstops⟩

end Engine

end Symbolizer
