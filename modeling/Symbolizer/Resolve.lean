import Symbolizer.Dwarf.Engine
import Symbolizer.Location
import Symbolizer.Symbols

/-! # Resolving addresses and names

An address is resolved by four lookups, each fed by the ones before it; the location
keeps what was found before the one that failed. A name is looked for in the index of
names, in the debug entries and in the symbol table; only its absence from a source
leads on to the next.
-/

namespace Symbolizer

/-- A question put to an engine. -/
inductive Call
  | unit (address : Address)
  | file (unit : Nat)
  | line (address : Address) (program : Nat)
  | function (address : Address) (unit : Nat)
  | index (name : Bytes)
  | scan (name : Bytes)
  deriving DecidableEq, Repr

/-- Why resolving cannot go on at all. -/
inductive Fatal
  | userAddress (address : Address)
  | malformedIndex (error : LookupError)
  | malformedEntries (error : LookupError)
  deriving DecidableEq, Repr

def Fatal.message : Fatal → String
  | userAddress address => Hex.ofAddress address ++ " is not a kernel address"
  | malformedIndex error => "name index is malformed: " ++ error.message
  | malformedEntries error => "debug entry tree is malformed: " ++ error.message

/-- The questions put to an engine, in order, and what was reported meanwhile. -/
structure Trace where
  calls : List Call
  log : List Message
  deriving DecidableEq, Repr

def Trace.empty : Trace := ⟨[], []⟩

/-- A computation that asks an engine, may report, and may stop early. -/
abbrev Traced (ε : Type) := ExceptT ε (StateM Trace)

namespace Traced

variable {ε α : Type}

def ask (call : Call) (lookup : Lookup α) : Traced ε (Except LookupError α) := do
  modify fun trace => ⟨trace.calls ++ [call], trace.log ++ lookup.log⟩
  pure lookup.answer

def tell (message : Message) : Traced ε Unit :=
  modify fun trace => { trace with log := trace.log ++ [message] }

/-- Runs from an empty trace. -/
def start (computation : Traced ε α) : Except ε α × Trace := (computation.run).run .empty

end Traced

inductive Failure
  | lookup (error : LookupError)
  | fatal (cause : Fatal)
  deriving DecidableEq, Repr

/-- An early stop, and the location as far as it was filled. -/
structure Stopped where
  location : Location
  failure : Failure
  deriving DecidableEq

structure Config where
  /-- The lowest address of the kernel. -/
  kernelStart : Address
  deriving DecidableEq, Repr

/-- The kernel lives above the lower half of the address space. -/
def Config.default : Config := ⟨0x800000000000⟩

/-- The length of the call instruction in front of a return address. -/
def callLength : Nat := 5

/-- The address of the call that returns to an address; no lower than zero. -/
def callSite (address : Address) : Address := UInt64.ofNat (address.toNat - callLength)

namespace Engine

variable (engine : Engine)

/-- One step of resolving an address. Its failure is reported and leaves the location as it is. -/
def step {α : Type} (address : Address) (step : Step) (location : Location) (call : Call)
    (lookup : Lookup α) : Traced Stopped α := do
  match ← Traced.ask call lookup with
  | .ok a => pure a
  | .error error =>
    Traced.tell (.stepFailed address step error)
    throw ⟨location, .lookup error⟩

/-- Fills a location for an address. The unit and its file are those of the address itself; line
and function are those of the call in front of it. -/
def resolveAddress (config : Config) (address : Address) (out : Location) :
    Traced Stopped Location := do
  let blank := out.reset address
  if address = 0 then return blank
  if address < config.kernelStart then throw ⟨blank, .fatal (.userAddress address)⟩
  let site := callSite address
  let unit ← step address .unit blank (.unit address) (engine.unitForAddress address)
  let file ← step address .file blank (.file unit) (engine.fileForUnit unit)
  let located := { blank with file := blank.file.copyFrom file.name }
  let line ← step address .line located (.line site file.lineProgram)
    (engine.lineForAddress site file.lineProgram)
  let located := { located with line }
  let function ← step address .function located (.function site unit)
    (engine.functionForAddress site unit)
  if (Bounded.copied 256 function.name).truncated then Traced.tell (.nameTruncated address)
  return { located with
    function := located.function.copyFrom function.name, entry := function.entry }

/-- The address of the function of a name; zero if there is none. -/
def resolveName (symbols : SymbolTable) (name : Bytes) : Traced Fatal Address := do
  match ← Traced.ask (.index name) (engine.addressByIndex name) with
  | .ok address => return address
  | .error .notFound => Traced.tell (.notInNameIndex name)
  | .error error => throw (.malformedIndex error)
  match ← Traced.ask (.scan name) (engine.addressByScan name) with
  | .ok address => return address
  | .error .notFound => Traced.tell (.notInEntries name)
  | .error error => throw (.malformedEntries error)
  match symbols.find? name with
  | some address => return address
  | none =>
    Traced.tell (.notInSymbols name)
    return 0

end Engine

namespace Image

def resolveAddress (image : Image) (config : Config) (address : Address) (out : Location) :
    Traced Stopped Location :=
  image.sections.engine.resolveAddress config address out

def resolveName (image : Image) (name : Bytes) : Traced Fatal Address :=
  image.sections.engine.resolveName image.symbolTable name

end Image

end Symbolizer
