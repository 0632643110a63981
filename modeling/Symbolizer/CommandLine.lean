import Symbolizer.CommandLine.Usage
import Symbolizer.Elf
import Symbolizer.Resolve

/-! # Command line

Resolves addresses or function names with the debug information of an image in a
file. Arguments are examined in order and the first bad one decides, before any file
is opened. Help may be asked for among them; the arguments after that are still
examined.
-/

namespace Symbolizer.CommandLine

inductive Command
  | addresses (addresses : List Address)
  | functions (names : List String)
  deriving DecidableEq, Repr

structure Options where
  file : String
  kernelStart : Option Address
  verbose : Bool
  command : Command
  deriving DecidableEq, Repr

/-- What the arguments ask for. -/
inductive Request
  | help (topic : Topic)
  | run (options : Options)
  deriving DecidableEq, Repr

inductive UsageError
  | unknownArgument (argument : String)
  | optionAfterHelp (argument : String)
  | missingValue (argument : String)
  | repeatedOption (argument : String)
  | badAddress (text : String) (fault : Hex.Fault)
  | missingFile
  | missingCommand
  deriving DecidableEq, Repr

def UsageError.message : UsageError → String
  | unknownArgument argument => "unrecognized argument: " ++ argument
  | optionAfterHelp argument => "no option is allowed behind help: " ++ argument
  | missingValue argument => "no value provided for option " ++ argument
  | repeatedOption argument => "option given more than once: " ++ argument
  | badAddress text fault => "bad address `" ++ text ++ "`: " ++ fault.message
  | missingFile => "required option not provided: --kernel"
  | missingCommand => "one of the commands addr and func must be present"

def parseAddress (text : String) : Except UsageError Address :=
  (Hex.parse text.toList).mapError (.badAddress text)

/-- The mark behind which no argument is an option or asks for help. -/
def endOfOptions : String := "--"

def asksForHelp (argument : String) : Bool := argument = "--help" || argument = "help"

/-- Whether help is asked for in front of the mark that ends options. -/
def anyAsksForHelp (arguments : List String) : Bool :=
  (arguments.takeWhile (· ≠ endOfOptions)).any asksForHelp

/-- The arguments of a command. None may start with a dash before the mark that ends options,
unless it asks for help; that mark is dropped once. -/
def parsePositionals {α : Type} (parse : String → Except UsageError α) :
    (optionsEnded : Bool) → List String → Except UsageError (List α)
  | _, [] => .ok []
  | ended, argument :: rest => do
    if !ended && asksForHelp argument then parsePositionals parse false rest
    else if !ended && argument = endOfOptions then parsePositionals parse true rest
    else if !ended && argument.startsWith "-" then throw (.unknownArgument argument)
    else return (← parse argument) :: (← parsePositionals parse ended rest)

/-- The options met so far, and whether help was asked for among them. -/
structure Given where
  file : Option String
  kernelStart : Option Address
  verbose : Bool
  help : Bool
  deriving DecidableEq, Repr

namespace Given

def nothing : Given := ⟨none, none, false, false⟩

/-- What is asked for with a command. Help is on the command, wherever it was asked for, and
then needs no file. -/
def request (given : Given) (topic : Topic) (command : Command) (arguments : List String) :
    Except UsageError Request :=
  if given.help || anyAsksForHelp arguments then .ok (.help topic)
  else match given.file with
    | none => .error .missingFile
    | some file => .ok (.run ⟨file, given.kernelStart, given.verbose, command⟩)

def parseCommand (given : Given) (name : String) (arguments : List String) :
    Except UsageError Request := do
  match name with
  | "addr" =>
    let addresses ← parsePositionals parseAddress false arguments
    given.request .addresses (.addresses addresses) arguments
  | "func" =>
    let names ← parsePositionals .ok false arguments
    given.request .functions (.functions names) arguments
  | _ => throw (.unknownArgument name)

/-- What is asked for without a command. -/
def withoutCommand (given : Given) : Except UsageError Request :=
  if given.help then .ok (.help .program)
  else if given.file.isNone then .error .missingFile
  else .error .missingCommand

def setFile (given : Given) (argument path : String) : Except UsageError Given :=
  if given.file.isSome then .error (.repeatedOption argument)
  else .ok { given with file := some path }

def setKernelStart (given : Given) (argument text : String) : Except UsageError Given := do
  if given.kernelStart.isSome then throw (.repeatedOption argument)
  .ok { given with kernelStart := some (← parseAddress text) }

end Given

/-- The options that are followed by a value, and what they do with it. -/
def valueOption? (argument : String) : Option (Given → String → Except UsageError Given) :=
  if argument = "-k" ∨ argument = "--kernel" then some (·.setFile argument)
  else if argument = "--kernel-base" then some (·.setKernelStart argument)
  else none

/-- The options in front of the command, and the command. A value is whatever argument comes
next. -/
def parseOptions (given : Given) : List String → Except UsageError Request
  | [] => given.withoutCommand
  | argument :: rest =>
    if asksForHelp argument then parseOptions { given with help := true } rest
    else if argument = endOfOptions then
      match rest with
      | [] => given.withoutCommand
      | name :: rest => given.parseCommand name rest
    else if !argument.startsWith "-" then given.parseCommand argument rest
    else if given.help then .error (.optionAfterHelp argument)
    else if argument = "-v" ∨ argument = "--verbose" then
      parseOptions { given with verbose := true } rest
    else match valueOption? argument, rest with
      | none, _ => .error (.unknownArgument argument)
      | some _, [] => .error (.missingValue argument)
      | some set, value :: rest => do parseOptions (← set given value) rest

def parse (arguments : List String) : Except UsageError Request := parseOptions .nothing arguments

/-- How a run ends. -/
inductive Ending
  | success
  | usage (error : UsageError)
  | failed (error : ImageError)
  | fatal (cause : Fatal)
  deriving DecidableEq, Repr

def Ending.exitCode : Ending → UInt32
  | success => 0
  | usage _ | failed _ => 1
  | fatal _ => 101

/-- The records that a run prints, what it reports, and how it ends. What was printed before it
fails is kept. -/
structure Output where
  records : List String
  log : List Message
  ending : Ending
  deriving DecidableEq, Repr

namespace Output

def done : Output := ⟨[], [], .success⟩

/-- What comes second happens only if the first part succeeds. -/
def andThen (first : Output) (second : Output) : Output :=
  match first.ending with
  | .success => ⟨first.records ++ second.records, first.log ++ second.log, second.ending⟩
  | _ => first

def sequence {α : Type} (f : α → Output) : List α → Output
  | [] => done
  | a :: rest => (f a).andThen (sequence f rest)

end Output

/-- The record of one address. Addresses below the kernel are not looked up, since the resolver
would refuse them. -/
def printAddress (image : Image) (config : Config) (address : Address) : Output :=
  let shown := Hex.padded address ++ "  "
  if address ≠ 0 ∧ address < config.kernelStart then
    ⟨[shown ++ "not a kernel address"], [], .success⟩
  else match Traced.start (image.resolveAddress config address (.fresh address)) with
  | (.ok location, trace) => ⟨[shown ++ location.text], trace.log, .success⟩
  | (.error ⟨location, .lookup error⟩, trace) =>
    ⟨[shown ++ location.text ++ "  (" ++ error.message ++ ")"], trace.log, .success⟩
  | (.error ⟨_, .fatal cause⟩, trace) => ⟨[], trace.log, .fatal cause⟩

/-- The record of one function name. -/
def printFunction (image : Image) (name : String) : Output :=
  match Traced.start (image.resolveName (Bytes.ofText name)) with
  | (.ok address, trace) =>
    ⟨[if address = 0 then name ++ ": not found" else name ++ " = " ++ Hex.padded address],
      trace.log, .success⟩
  | (.error cause, trace) => ⟨[], trace.log, .fatal cause⟩

def answer (image : Image) (config : Config) : Command → Output
  | .addresses addresses => .sequence (printAddress image config) addresses
  | .functions names => .sequence (printFunction image) names

/-- Runs under a name, which help mentions. -/
def run (programName : String) (openFile : String → Option Bytes) (arguments : List String) :
    Output :=
  match parse arguments with
  | .error error => ⟨[], [], .usage error⟩
  | .ok (.help topic) => ⟨topic.lines programName, [], .success⟩
  | .ok (.run options) =>
    match openFile options.file with
    | none => ⟨[], [], .failed .missingFile⟩
    | some bytes =>
      match Image.ofElf bytes with
      | .error error => ⟨[], [], .failed error⟩
      | .ok image =>
        let config := ⟨options.kernelStart.getD Config.default.kernelStart⟩
        let output := answer image config options.command
        if options.verbose then output else { output with log := [] }

end Symbolizer.CommandLine
