import Symbolizer.Proofs.Outcomes
import Symbolizer.Proofs.Searches
import Symbolizer.Resolve

/-! # What resolving comes to

Of a resolution only its result matters here, not the questions it puts to its engine
and the messages. The location of an address is filled by four lookups in turn, and
the first that fails stops it. The address of a name is asked of three sources in turn.
-/

namespace Symbolizer

namespace Traced

variable {ε α β : Type}

/-- What follows a result starts from the trace that was left with it. -/
theorem run_bind_of_ok {first : Traced ε α} {next : α → Traced ε β} {trace : Trace} {a : α}
    (h : ((first.run).run trace).1 = .ok a) :
    ((first >>= next).run).run trace = ((next a).run).run ((first.run).run trace).2 := by
  change (ExceptT.bindCont next (first.run.run trace).1).run (first.run.run trace).2 = _
  rw [h]
  rfl

/-- Nothing follows an error. -/
theorem run_bind_of_error {first : Traced ε α} {next : α → Traced ε β} {trace : Trace} {e : ε}
    (h : ((first.run).run trace).1 = .error e) :
    ((first >>= next).run).run trace = (.error e, ((first.run).run trace).2) := by
  change (ExceptT.bindCont next (first.run.run trace).1).run (first.run.run trace).2 = _
  rw [h]
  rfl

/-- The result of a computation, whatever was asked and reported before. -/
def Yields (computation : Traced ε α) (result : Except ε α) : Prop :=
  ∀ trace, ((computation.run).run trace).1 = result

namespace Yields

theorem start {computation : Traced ε α} {result : Except ε α} (h : computation.Yields result) :
    computation.start.1 = result := h .empty

theorem pure (a : α) : Yields (pure a : Traced ε α) (.ok a) := by
  intro trace
  rfl

theorem throw (e : ε) : Yields (throw e : Traced ε α) (.error e) := by
  intro trace
  rfl

theorem tell (message : Message) : Yields (tell message : Traced ε Unit) (.ok ()) := by
  intro trace
  rfl

theorem ask (call : Call) (lookup : Lookup α) :
    Yields (ask call lookup : Traced ε (Except LookupError α)) (.ok lookup.answer) := by
  intro trace
  rfl

theorem bind_ok {first : Traced ε α} {next : α → Traced ε β} {a : α} {result : Except ε β}
    (h : first.Yields (.ok a)) (hnext : (next a).Yields result) :
    (first >>= next).Yields result := by
  intro trace
  rw [run_bind_of_ok (h trace)]
  exact hnext _

theorem bind_error {first : Traced ε α} {next : α → Traced ε β} {e : ε}
    (h : first.Yields (.error e)) : (first >>= next).Yields (.error e) := by
  intro trace
  rw [run_bind_of_error (h trace)]

theorem bind {first : Traced ε α} {next : α → Traced ε β} {result : Except ε α}
    {results : α → Except ε β} (h : first.Yields result)
    (hnext : ∀ a, (next a).Yields (results a)) : (first >>= next).Yields (result >>= results) := by
  cases result with
  | error e => exact bind_error h
  | ok a => exact bind_ok h (hnext a)

end Yields

end Traced

theorem toNat_callSite (address : Address) :
    (callSite address).toNat = address.toNat - callLength := by
  have := address.toNat_lt
  rw [callSite, UInt64.toNat_ofNat']
  exact Nat.mod_eq_of_lt (by omega)

/-- What a unit says of a call: its file, and line and function at the call. -/
structure Engine.Attributes (engine : Engine) (unit : Nat) (site : Address) (file : SourceFile)
    (line : UInt32) (function : Function) : Prop where
  of_file : (engine.fileForUnit unit).answer = .ok file
  of_line : (engine.lineForAddress site file.lineProgram).answer = .ok line
  of_function : (engine.functionForAddress site unit).answer = .ok function

/-- The location reports this file, line and function, as far as names fit. -/
structure Location.Reports (location : Location) (file : Bytes) (line : UInt32)
    (function : Function) : Prop where
  file_contents : location.file.contents = file.take 256
  line_eq : location.line = line
  function_contents : location.function.contents = function.name.take 256
  entry_eq : location.entry = function.entry

namespace Engine

open Traced

variable (engine : Engine)

theorem step_yields {α : Type} (address : Address) (which : Step) (location : Location)
    (call : Call) (lookup : Lookup α) : (step address which location call lookup).Yields
      (lookup.answer.mapError fun e => ⟨location, .lookup e⟩) := by
  apply (Yields.ask call lookup).bind_ok
  cases lookup.answer with
  | ok a => exact Yields.pure a
  | error e => exact (Yields.tell _).bind_ok (Yields.throw _)

/-- The location of an address that the resolver does not refuse, filled from the answers of
the engine alone. -/
def located (address : Address) : Except Stopped Location := do
  let site := callSite address
  let blank := Location.fresh address
  let unit ← (engine.unitForAddress address).answer.mapError fun e => ⟨blank, .lookup e⟩
  let file ← (engine.fileForUnit unit).answer.mapError fun e => ⟨blank, .lookup e⟩
  let named := { blank with file := .ofBytes file.name }
  let line ← (engine.lineForAddress site file.lineProgram).answer.mapError
    fun e => ⟨named, .lookup e⟩
  let lined := { named with line }
  let function ← (engine.functionForAddress site unit).answer.mapError
    fun e => ⟨lined, .lookup e⟩
  .ok { lined with function := .ofBytes function.name, entry := function.entry }

/-- A location is filled exactly where the unit of the address itself attributes the call. -/
theorem located_eq_ok_iff {engine : Engine} {address : Address} {location : Location} :
    engine.located address = .ok location ↔
      ∃ unit file line function, (engine.unitForAddress address).answer = .ok unit ∧
        engine.Attributes unit (callSite address) file line function ∧
        location = ⟨address, .ofBytes file.name, line, .ofBytes function.name,
          function.entry, 0⟩ := by
  simp only [located, Except.bind_eq_ok_iff, Except.mapError_eq_ok_iff]
  constructor
  · rintro ⟨unit, hunit, file, hfile, line, hline, function, hfunction, heq⟩
    exact ⟨unit, file, line, function, hunit, ⟨hfile, hline, hfunction⟩, (Except.ok.inj heq).symm⟩
  · rintro ⟨unit, file, line, function, hunit, ⟨hfile, hline, hfunction⟩, rfl⟩
    exact ⟨unit, hunit, file, hfile, line, hline, function, hfunction, rfl⟩

theorem located_eq_error_of_unit {engine : Engine} {address : Address} {e : LookupError}
    (h : (engine.unitForAddress address).answer = .error e) :
    engine.located address = .error ⟨.fresh address, .lookup e⟩ := by
  rw [located, h]
  rfl

theorem located_eq_error_of_file {engine : Engine} {address : Address} {unit : Nat}
    {e : LookupError} (hunit : (engine.unitForAddress address).answer = .ok unit)
    (h : (engine.fileForUnit unit).answer = .error e) :
    engine.located address = .error ⟨.fresh address, .lookup e⟩ := by
  simp only [located, hunit, Except.mapError_ok, Except.ok_bind, h]
  rfl

theorem located_eq_error_of_line {engine : Engine} {address : Address} {unit : Nat}
    {file : SourceFile} {e : LookupError}
    (hunit : (engine.unitForAddress address).answer = .ok unit)
    (hfile : (engine.fileForUnit unit).answer = .ok file)
    (h : (engine.lineForAddress (callSite address) file.lineProgram).answer = .error e) :
    engine.located address =
      .error ⟨{ Location.fresh address with file := .ofBytes file.name }, .lookup e⟩ := by
  simp only [located, hunit, hfile, Except.mapError_ok, Except.ok_bind, h]
  rfl

/-- Outside the part of the address space that is refused, only lookups fail, and then nothing
is known but the file and the line. -/
theorem stopped_of_located_eq_error {engine : Engine} {address : Address} {stopped : Stopped}
    (h : engine.located address = .error stopped) :
    ∃ error, stopped = ⟨.fresh address, .lookup error⟩ ∨
      ∃ unit file line, (engine.fileForUnit unit).answer = .ok file ∧
        stopped = ⟨{ Location.fresh address with file := .ofBytes file.name, line },
          .lookup error⟩ := by
  simp only [located, Except.bind_eq_error_iff, Except.mapError_eq_error_iff,
    Except.mapError_eq_ok_iff] at h
  rcases h with ⟨error, -, rfl⟩ | ⟨unit, -, ⟨error, -, rfl⟩ | ⟨file, hfile, h⟩⟩
  · exact ⟨error, Or.inl rfl⟩
  · exact ⟨error, Or.inl rfl⟩
  · rcases h with ⟨error, -, rfl⟩ | ⟨line, -, ⟨error, -, rfl⟩ | ⟨function, -, h⟩⟩
    · exact ⟨error, Or.inr ⟨unit, file, 0, hfile, rfl⟩⟩
    · exact ⟨error, Or.inr ⟨unit, file, line, hfile, rfl⟩⟩
    · cases h

/-- What an earlier use has left in the location has no part in the resolution. -/
theorem resolveAddress_eq_of_fresh (config : Config) (address : Address) (out : Location) :
    engine.resolveAddress config address out =
      engine.resolveAddress config address (.fresh address) := by
  rw [resolveAddress, resolveAddress, Location.reset_eq_fresh, Location.reset_eq_fresh]

/-- The address zero ends a chain of calls and stands for nothing. -/
theorem resolveAddress_zero (config : Config) (out : Location) :
    engine.resolveAddress config 0 out = pure (.fresh 0) := by
  rw [resolveAddress, Location.reset_eq_fresh]
  exact if_pos rfl

theorem resolveAddress_refused {config : Config} {address : Address} (hzero : address ≠ 0)
    (huser : address < config.kernelStart) (out : Location) :
    engine.resolveAddress config address out =
      throw ⟨.fresh address, .fatal (.userAddress address)⟩ := by
  rw [resolveAddress, Location.reset_eq_fresh, if_neg hzero]
  exact if_pos huser

/-- Neither the earlier use of the location nor what is reported has a part in the outcome. -/
theorem resolveAddress_yields_located {config : Config} {address : Address} (hzero : address ≠ 0)
    (hkernel : config.kernelStart ≤ address) (out : Location) :
    (engine.resolveAddress config address out).Yields (engine.located address) := by
  have hrefuse : ¬address < config.kernelStart := UInt64.not_lt.mpr hkernel
  rw [resolveAddress, located, Location.reset_eq_fresh]
  simp only [hzero, hrefuse, if_false, Bounded.copyFrom_eq_ofBytes]
  refine (step_yields _ _ _ _ _).bind fun unit => (step_yields _ _ _ _ _).bind fun file =>
    (step_yields _ _ _ _ _).bind fun line => (step_yields _ _ _ _ _).bind fun function => ?_
  split
  · exact (Yields.tell _).bind_ok (Yields.pure _)
  · exact Yields.pure _

/-- A location that is filled has been filled from the answers of the engine. -/
theorem located_of_resolveAddress {engine : Engine} {config : Config} {address : Address}
    (hzero : address ≠ 0) {out location : Location}
    (h : (engine.resolveAddress config address out).start.1 = .ok location) :
    engine.located address = .ok location := by
  by_cases huser : address < config.kernelStart
  · rw [resolveAddress_refused engine hzero huser] at h
    cases h
  · rw [← h]
    exact (engine.resolveAddress_yields_located hzero (UInt64.not_lt.mp huser) out).start.symm

/-- The address of a name, from the answers of the engine and the symbol table alone. -/
def named (symbols : SymbolTable) (name : Bytes) : Except Fatal Address :=
  match (engine.addressByIndex name).answer with
  | .ok address => .ok address
  | .error .notFound =>
    match (engine.addressByScan name).answer with
    | .ok address => .ok address
    | .error .notFound => .ok ((symbols.find? name).getD 0)
    | .error error => .error (.malformedEntries error)
  | .error error => .error (.malformedIndex error)

theorem resolveName_yields_named (symbols : SymbolTable) (name : Bytes) :
    (engine.resolveName symbols name).Yields (engine.named symbols name) := by
  rw [resolveName, named]
  refine (Yields.ask _ _).bind_ok ?_
  cases (engine.addressByIndex name).answer with
  | ok address => exact Yields.pure _
  | error error =>
      cases error with
      | notFound =>
          refine (Yields.tell _).bind_ok ((Yields.ask _ _).bind_ok ?_)
          cases (engine.addressByScan name).answer with
          | ok address => exact Yields.pure _
          | error error =>
              cases error with
              | notFound =>
                  refine (Yields.tell _).bind_ok ?_
                  cases symbols.find? name with
                  | some address => exact Yields.pure _
                  | none => exact (Yields.tell _).bind_ok (Yields.pure _)
              | _ => exact (Yields.throw _).bind_error
      | _ => exact (Yields.throw _).bind_error

end Engine

end Symbolizer
